import ConformanceHarness.Lib.Alarms
import ConformanceHarness.Proof.Verdicts

/-!
# No failure is swallowed

A failure can be recorded anywhere: by a step of a branch inside the body of a `repeat`, say.
What comes of it is up to everything around that step, which has to pass it on. Here it is shown
that all of it does: an execution ends well if and only if nothing that was recorded in it, at
whatever depth, tells of a failure. This does not depend on whether the trace can be written.
-/

namespace ConformanceHarness.Proof

open Lib Future Runner

/-! ## What tells of a failure -/

/-- The `outcome` in the payload of an event. -/
def outcomeIs (event : TraceEvent) (s : String) : Bool :=
  match event.payload.getField "outcome" with
  | some (.string outcome) => outcome = s
  | _ => false

/-- The event reports that something went wrong. -/
def isFailureEvent (event : TraceEvent) : Bool :=
  match event.kind with
  | .assertionFailed => true
  | .parallelBranchFailed => true
  | .parallelBranchAborted => true
  | .stepCompleted => !outcomeIs event "ok"
  | .repeatIterationCompleted => !outcomeIs event "ok"
  | .parallelCompleted => !outcomeIs event "ok"
  | .scenarioCompleted => !outcomeIs event "completed"
  | _ => false

/-- The kinds of events that have to be written. -/
def isRequiredKind : EventKind → Bool
  | .scenarioStarted => true
  | .networkDeclared => true
  | .peerStateInitialized => true
  | .stepStarted => true
  | .stepCompleted => true
  | .repeatIterationStarted => true
  | .repeatIterationCompleted => true
  | .parallelStarted => true
  | .parallelBranchStarted => true
  | .parallelBranchCompleted => true
  | .parallelCompleted => true
  | _ => false

/-- The entry tells of a failure. -/
def tellsFailure : Label runner → Bool
  | .did ⟨_, .emit event⟩ (.ok _) => isFailureEvent event
  | .did ⟨_, .emit event⟩ (.error _) => isFailureEvent event || isRequiredKind event.kind
  | .did ⟨_, .snapshot params⟩ vars => !(substituteInValue params vars).isOk
  | .did ⟨_, .execute _ _ _ _⟩ report => !report.result.isOk
  | .did _ _ => false
  | .dropped _ _ => true

/-- `tellsFailure`, as a proposition. -/
abbrev Tells (x : Label runner) : Prop := tellsFailure x = true

section

variable {p q : Path} {event : TraceEvent} {events : List TraceEvent} {k : Run} {e : RunError}
  {idx n i : Nat} {Excused : RunError → Prop}

theorem own_untold {event : OwnEvent} {r : Except RunError Unit} :
    ¬ Tells (.did ⟨p, .emit event.event⟩ r) := by
  rcases event with ⟨⟨kind, _⟩, hown⟩
  revert hown
  cases r <;> cases kind <;> simp [Tells, tellsFailure, isFailureEvent, isRequiredKind, isFrameKind]

theorem told_of_reported {r : Except RunError Unit} (h : isFailureEvent event = true) :
    Tells (.did ⟨p, .emit event⟩ r) := by
  cases r <;> simp [Tells, tellsFailure, h]

/-! ## Emitting -/

theorem fail_doomed (e : RunError) : Doomed (fail e) := Doomed.error (S := runner) e

theorem emit_doomed (h : Doomed k) : Doomed (emit p event k) := by
  refine .ask fun b => ?_
  cases b with
  | error e => exact fail_doomed e
  | ok a => exact h

theorem emitIgnored_doomed (h : Doomed k) : Doomed (emitIgnored p events k) := by
  induction events with
  | nil => exact h
  | cons event events ih => exact .ask fun _ => ih

theorem emit_alarmed (hevent : isFailureEvent event = false) (h : Alarmed Tells k) :
    Alarmed Tells (emit p event k) := by
  refine .ask (fun b htells => ?_) fun b => ?_
  · cases b with
    | error e => exact fail_doomed e
    | ok a => exact absurd (hevent.symm.trans htells) Bool.false_ne_true
  · cases b with
    | error e => exact .ret
    | ok a => exact h

theorem emitIgnored_alarmed
    (hevents : ∀ event ∈ events, ∀ r, ¬ Tells (.did ⟨p, .emit event⟩ r)) (h : Alarmed Tells k) :
    Alarmed Tells (emitIgnored p events k) := by
  induction events with
  | nil => exact h
  | cons event events ih =>
      refine .ask_quiet (hevents event List.mem_cons_self) fun _ => ?_
      exact ih fun event hmem => hevents event (List.mem_cons_of_mem _ hmem)

theorem emit_admits (hrequired : isRequiredKind event.kind = true) (h : Admits Tells Excused k) :
    Admits Tells Excused (emit p event k) := by
  refine .ask fun b => ?_
  cases b with
  | error e => exact Or.inl (Bool.or_eq_true_iff.mpr (Or.inr hrequired))
  | ok a => exact Or.inr h

theorem emitIgnored_admits (h : Admits Tells Excused k) :
    Admits Tells Excused (emitIgnored p events k) := by
  induction events with
  | nil => exact h
  | cons event events ih => exact .ask fun _ => Or.inr ih

/-! ## Steps -/

theorem play_doomed (moves : List Move) : Doomed (play p (.error e) moves) := by
  induction moves with
  | nil => exact fail_doomed e
  | cons move moves ih =>
      cases move with
      | emit event required =>
          refine .ask fun b => ?_
          cases b with
          | ok a => exact ih
          | error e' => cases required with
            | true => exact fail_doomed e'
            | false => exact ih
      | setVariable name v => exact .ask fun _ => ih

theorem play_alarmed {result : Except RunError Unit} (moves : List Move) :
    Alarmed Tells (play p result moves) := by
  induction moves with
  | nil => exact .ret
  | cons move moves ih =>
      cases move with
      | emit event required =>
          refine .ask_quiet (fun b => own_untold) fun b => ?_
          cases b with
          | ok a => exact ih
          | error e' => cases required with
            | true => exact .ret
            | false => exact ih
      | setVariable name v => exact .ask_quiet (fun _ => Bool.false_ne_true) fun _ => ih

theorem completeStep_doomed {step : Runner.StepDef} : Doomed (completeStep p idx step (.error e)) :=
  .ask fun _ => emitIgnored_doomed (emitIgnored_doomed (fail_doomed e))

/-- Without an error of the step itself, its assertions decide. -/
theorem completeStep_alarmed {step : Runner.StepDef} :
    Alarmed Tells (completeStep p idx step (.ok ())) := by
  refine .ask_quiet (fun _ => Bool.false_ne_true) fun events => ?_
  show Alarmed Tells (emitIgnored p _ (if _ then _ else _))
  split
  · next hall =>
      refine emitIgnored_alarmed (fun event hevent r => ?_) (emit_alarmed rfl .ret)
      obtain ⟨result, hresult, rfl⟩ := List.mem_map.mp hevent
      have hpassed : result.passed = true := List.all_eq_true.mp hall result hresult
      cases r <;> simp [Tells, tellsFailure, isFailureEvent, isRequiredKind, assertionEvent,
        internal, TraceEvent.new, hpassed]
  · exact (emitIgnored_doomed (emit_doomed (.error _))).alarmed

theorem completeStep_admits {step : Runner.StepDef} {result : Except RunError Unit} :
    Admits Tells Excused (completeStep p idx step result) := by
  refine .ask fun events => Or.inr (emitIgnored_admits ?_)
  cases result with
  | error e => exact .ask fun b => Or.inl (told_of_reported rfl)
  | ok a =>
      show Admits Tells Excused (if _ then _ else _)
      split
      · exact emit_admits rfl .ok
      · exact .ask fun b => Or.inl (told_of_reported rfl)

/-- A step loses no failure, if its execution does not. -/
theorem runStepWith_alarmed {step : Runner.StepDef} {execute : Path → Value → Run}
    (h : ∀ resolved, Alarmed Tells (execute (.step idx :: q) resolved)) :
    Alarmed Tells (runStepWith q idx step execute) := by
  refine .ask_quiet (fun _ => Bool.false_ne_true) fun _ => emit_alarmed rfl ?_
  refine .ask_quiet (fun _ => Bool.false_ne_true) fun _ =>
    .ask (fun vars htells => ?_) fun vars => ?_
  · rcases hsub : substituteInValue step.substituted vars with f | ⟨resolved, refs⟩
    · exact fail_doomed _
    · rw [Tells, tellsFailure, hsub] at htells
      cases htells
  · rcases hsub : substituteInValue step.substituted vars with f | ⟨resolved, refs⟩
    · exact .ret
    · refine emitIgnored_alarmed (fun event hevent r => ?_)
        (.bind (h resolved) (fun _ => completeStep_doomed) completeStep_alarmed)
      obtain ⟨ref, -, rfl⟩ := List.mem_map.mp hevent
      cases r <;> exact Bool.false_ne_true

/-- Whatever is executed, `run_step` reports its error. -/
theorem runStepWith_admits {step : Runner.StepDef} {execute : Path → Value → Run} :
    Admits Tells Excused (runStepWith q idx step execute) := by
  refine .ask fun _ => Or.inr (emit_admits rfl (.ask fun _ => Or.inr (.ask fun vars => ?_)))
  rcases hsub : substituteInValue step.substituted vars with f | ⟨resolved, refs⟩
  · left
    rw [Tells, tellsFailure, hsub]
    rfl
  · exact Or.inr (emitIgnored_admits (.bind fun _ => completeStep_admits))

/-! ## What runs the steps -/

theorem iteration_alarmed {body : Run} (h : Alarmed Tells body) :
    Alarmed Tells (iteration p i n body) :=
  emit_alarmed rfl (.bind h (fun e => emit_doomed (fail_doomed e)) (emit_alarmed rfl .ret))

theorem completeParallel_doomed {branchCount : Nat} :
    Doomed (completeParallel p branchCount (.error e)) := by
  have haborted : ∀ n bi, Doomed (emitAborted p
      (emit p (parallelCompleted (.error e)) (.ret (.error e))) bi n) := by
    intro n
    induction n with
    | zero => exact fun bi => emit_doomed (fail_doomed e)
    | succ n ih =>
        intro bi
        refine .ask fun flags => ?_
        show Doomed (if _ then _ else _)
        split
        · exact emitIgnored_doomed (ih (bi + 1))
        · exact ih (bi + 1)
  exact haborted branchCount 0

mutual

theorem executeStep_alarmed (step : Runner.StepDef) (p : Path) (resolved : Value) :
    Alarmed Tells (Runner.executeStep step p resolved) := by
  rw [Runner.executeStep]
  rcases StepParams.fromValue resolved with _ | params
  · exact .ret
  · cases step with
    | leaf kind common =>
        refine .ask (fun report htells => ?_) fun report => play_alarmed report.moves
        rcases report with ⟨moves, e | a⟩
        · exact play_doomed moves
        · cases htells
    | «repeat» common body =>
        rcases times resolved with _ | n
        · exact .ret
        · exact .loop fun i => iteration_alarmed (runBody_alarmed body _ 0)
    | malformedRepeat common error =>
        rcases times resolved with _ | n
        · exact .ret
        · exact .ret
    | parallel common branches =>
        refine emit_alarmed rfl (.join (branchFutures_alarmed branches p 0) ?_ ?_)
        · exact fun e => completeParallel_doomed
        · exact emit_alarmed rfl .ret
    | malformedParallel common error => exact .ret

theorem runBody_alarmed (body : List Runner.StepDef) (q : Path) (idx : Nat) :
    Alarmed Tells (runBody body q idx) := by
  cases body with
  | nil => exact .ret
  | cons step rest =>
      rw [runBody]
      exact .andThen (runStepWith_alarmed fun resolved => executeStep_alarmed step _ resolved)
        (runBody_alarmed rest q (idx + 1))

theorem runBranch_alarmed (steps : List Runner.StepDef) (q : Path) (bi si : Nat) :
    Alarmed Tells (runBranch steps q bi si) := by
  cases steps with
  | nil => exact .ask_quiet (fun _ => Bool.false_ne_true) fun _ => emit_alarmed rfl .ret
  | cons step rest =>
      rw [runBranch]
      refine .ask_quiet (fun _ => Bool.false_ne_true) fun _ => .bind
        (runStepWith_alarmed fun resolved => executeStep_alarmed step _ resolved) ?_ ?_
      · exact fun e => .ask fun _ => emitIgnored_doomed (fail_doomed e)
      · exact runBranch_alarmed rest q bi (si + 1)

theorem branchFutures_alarmed (branches : List (List Runner.StepDef)) (p : Path) (bi : Nat) :
    ∀ c ∈ branchFutures branches p bi, Alarmed Tells c := by
  cases branches with
  | nil =>
      rw [branchFutures]
      exact List.forall_mem_nil _
  | cons steps rest =>
      rw [branchFutures]
      exact List.forall_mem_cons.mpr ⟨emit_alarmed rfl (runBranch_alarmed steps _ bi 0),
        branchFutures_alarmed rest p (bi + 1)⟩

end

/-- **The result of a step** says whether a failure was recorded in it. -/
theorem runStep_ok_iff {step : Runner.StepDef} {record : Record} {r : Except RunError Unit}
    (h : (Runner.runStep q idx step).Runs record (.ret r)) :
    r = .ok () ↔ ∀ x ∈ record, ¬ Tells x := by
  have halarmed : Alarmed Tells (Runner.runStep q idx step) :=
    runStepWith_alarmed fun resolved => executeStep_alarmed step _ resolved
  have hadmits : Admits Tells (fun _ => False) (Runner.runStep q idx step) := runStepWith_admits
  refine (h.ok_iff halarmed hadmits).resolve_right ?_
  rintro ⟨e, -, hfalse⟩
  exact hfalse

end

/-! ## Scenarios -/

section

variable {files : Files} {scenario : Scenario} {events : List OwnEvent} {vars : VarStore}
  {record : Record} {rest k : Run} {r : Except RunError Unit} {Excused : RunError → Prop}

/-- The verdict over failed steps is no success. -/
theorem emitCompleted_reports {name : String} {passed failed : Nat} {ms : UInt64} {e : RunError} :
    isFailureEvent (scenarioCompleted name passed failed ms e.outcome) = true := by
  cases e <;> rfl

theorem runSteps_alarmed (name : String) (steps : List Runner.StepDef) (idx : Nat) :
    Alarmed Tells (Runner.runSteps name idx steps) := by
  induction steps generalizing idx with
  | nil =>
      refine .ask_quiet (fun _ => Bool.false_ne_true) fun ms => emitIgnored_alarmed ?_ .ret
      intro event hevent r
      rw [List.mem_singleton.mp hevent]
      cases r <;> exact Bool.false_ne_true
  | cons step steps ih =>
      refine .bind (runStepWith_alarmed fun resolved => executeStep_alarmed step _ resolved) ?_ ?_
      · intro e
        exact .ask fun _ => emitIgnored_doomed (.ask fun _ => emitIgnored_doomed (fail_doomed e))
      · exact ih (idx + 1)

theorem runSteps_admits (name : String) (steps : List Runner.StepDef) (idx : Nat) :
    Admits Tells Excused (Runner.runSteps name idx steps) := by
  induction steps generalizing idx with
  | nil => exact .ask fun ms => Or.inr (emitIgnored_admits .ok)
  | cons step steps ih =>
      refine .bind fun r => ?_
      cases r with
      | ok a => exact ih (idx + 1)
      | error e =>
          refine .ask fun names => Or.inr (emitIgnored_admits (.ask fun ms => Or.inr ?_))
          exact .ask fun b => Or.inl (told_of_reported emitCompleted_reports)

theorem initPeers_alarmed (peers : List Peer) (h : Alarmed Tells k) :
    Alarmed Tells (initPeers files k peers) := by
  induction peers with
  | nil => exact h
  | cons peer peers ih =>
      rw [initPeers]
      rcases peer.initialState files with f | ps
      · exact .ret
      · exact emit_alarmed rfl ih

theorem Unloadable.cons {peer : Peer} {peers : List Peer} {ps : PeerState} {f : Fault}
    (h : Unloadable files peers f) (hload : peer.initialState files = .ok ps) :
    Unloadable files (peer :: peers) f := by
  obtain ⟨before, p, after, rfl, hbefore, hp⟩ := h
  exact ⟨peer :: before, p, after, rfl, List.forall_mem_cons.mpr ⟨⟨ps, hload⟩, hbefore⟩, hp⟩

theorem initPeers_admits (peers : List Peer)
    (hexcused : ∀ f, Unloadable files peers f → Excused (.ofFault [] f))
    (h : Admits Tells Excused k) : Admits Tells Excused (initPeers files k peers) := by
  induction peers with
  | nil => exact h
  | cons peer peers ih =>
      rw [initPeers]
      rcases hload : peer.initialState files with f | ps
      · exact .error (hexcused f ⟨[], peer, peers, rfl, List.forall_mem_nil _, hload⟩)
      · exact emit_admits rfl (ih fun f hf => hexcused f (hf.cons hload))

/-- The error of a peer that cannot be loaded. -/
def PeerFault (files : Files) (scenario : Scenario) (e : RunError) : Prop :=
  ∃ peers f, scenario.network = some peers ∧ Unloadable files peers f ∧ e = .ofFault [] f

theorem runScenario_alarmed : Alarmed Tells (runScenario files scenario) := by
  refine emit_alarmed rfl ?_
  rcases scenario.network with _ | peers
  · exact runSteps_alarmed _ _ 0
  · exact emit_alarmed rfl (initPeers_alarmed peers (runSteps_alarmed _ _ 0))

theorem runScenario_admits :
    Admits Tells (PeerFault files scenario) (runScenario files scenario) := by
  refine emit_admits rfl ?_
  rcases hnetwork : scenario.network with _ | peers
  · exact runSteps_admits _ _ 0
  · refine emit_admits rfl (initPeers_admits peers ?_ (runSteps_admits _ _ 0))
    exact fun f hf => ⟨peers, f, hnetwork, hf, rfl⟩

theorem workers_alarmed : Alarmed Tells (workers events) := by
  refine emitIgnored_alarmed (fun event hevent r => ?_) .ret
  obtain ⟨own, -, rfl⟩ := List.mem_map.mp hevent
  exact own_untold

/-- The workers take no part in this. -/
theorem program_alarmed : Alarmed Tells (program files scenario events) := by
  refine .join ?_ fail_doomed .ret
  exact List.forall_mem_cons.mpr ⟨runScenario_alarmed,
    List.forall_mem_cons.mpr ⟨workers_alarmed, List.forall_mem_nil _⟩⟩

theorem program_admits : Admits Tells (PeerFault files scenario)
    (program files scenario events) := by
  intro record e h
  refine (runScenario_admits _ e (scenario_result h)).imp_left ?_
  rintro ⟨x, hx, htells⟩
  exact ⟨x, (mem_recordAt.mp hx).1, htells⟩

/-- **No failure is swallowed, and none is made up.** A scenario ends well if and only if no entry
of its record tells of a failure, unless a peer could not be loaded. The same is true of every
execution of every step, and of what is recorded at its path and below. -/
theorem nothing_swallowed (hrun : ScenarioRun files scenario events vars record rest) :
    (∀ r, rest = .ret r → (r = .ok () ↔ ∀ x ∈ record, ¬ Tells x) ∨
      ∃ e, r = .error e ∧ PeerFault files scenario e) ∧
    ∀ {q idx step}, Locates scenario.steps root q idx step →
      (∃ x ∈ record, AtOrBelow (.step idx :: q) x.place) →
      ∃ left, (Runner.runStep q idx step).Runs
          (recordAt (AtOrBelow (.step idx :: q)) record) left ∧
        (rest.finished = true →
          left.finished = true ∨ Dropped (Contains (.step idx :: q)) record) ∧
        ∀ r, left = .ret r → (r = .ok () ↔
          ∀ x ∈ record, AtOrBelow (.step idx :: q) x.place → ¬ Tells x) := by
  constructor
  · rintro r rfl
    exact hrun.runs.ok_iff program_alarmed program_admits
  · intro q idx step hstep hsome
    obtain ⟨left, hruns, hend⟩ := local_run hrun.runs hstep hsome
    refine ⟨left, hruns, hend, ?_⟩
    rintro r rfl
    refine (runStep_ok_iff hruns).trans ⟨fun h x hx hat => ?_, fun h x hx => ?_⟩
    · exact h x (mem_recordAt.mpr ⟨hx, hat⟩)
    · obtain ⟨hmem, hat⟩ := mem_recordAt.mp hx
      exact h x hmem hat

end

/-- The failure in the second iteration ends the step, and the scenario. -/
theorem sleptOnce_not_swallowed :
    (∃ e, leftOver noFiles (scenarioOf [sleepTimes 2 none]) (fun _ => none) interrupted =
      .ret (.error e)) ∧
    ∃ left, (Runner.runStep root 0 (sleepTimes 2 none)).Runs
        (recordAt (AtOrBelow (.step 0 :: root)) sleptOnce) left ∧ left ≠ .ret (.ok ()) := by
  have hrun : ScenarioRun noFiles (scenarioOf [sleepTimes 2 none]) [] (fun _ => none) sleptOnce
      (leftOver noFiles (scenarioOf [sleepTimes 2 none]) (fun _ => none) interrupted) :=
    simulated_run (by decide +kernel)
  have hfinished : (leftOver noFiles (scenarioOf [sleepTimes 2 none]) (fun _ => none)
      interrupted).finished = true := by decide +kernel
  have hany : sleptOnce.any (fun x => decide (AtOrBelow (.step 0 :: root) x.place) &&
      tellsFailure x) = true := by decide +kernel
  obtain ⟨x, hx, hboth⟩ := List.any_eq_true.mp hany
  obtain ⟨hat, htells⟩ := Bool.and_eq_true_iff.mp hboth
  constructor
  · obtain ⟨r, hleft⟩ := exists_ret hfinished
    rcases (nothing_swallowed hrun).1 r hleft with hiff | ⟨e, rfl, -⟩
    · cases r with
      | error e => exact ⟨e, hleft⟩
      | ok a => exact absurd htells (hiff.mp rfl x hx)
    · exact ⟨e, hleft⟩
  · obtain ⟨left, hruns, -, hiff⟩ :=
      (nothing_swallowed hrun).2 (.here rfl) ⟨x, hx, of_decide_eq_true hat⟩
    refine ⟨left, hruns, fun hleft => ?_⟩
    exact (hiff _ hleft).mp rfl x hx (of_decide_eq_true hat) htells

end ConformanceHarness.Proof
