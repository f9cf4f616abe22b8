import ConformanceHarness.Lib.Alarms
import ConformanceHarness.Proof.RepeatRuns

/-!
# The verdict of a scenario

`ScenarioRunner::run` goes through the steps of a scenario until one of them fails, and says in
`scenario_completed` how it went. This module takes its run apart: what is recorded before the
first step, the steps one after the other, and what is recorded behind the last of them. So
the result, the summary in the trace and the steps that were started agree.
-/

namespace ConformanceHarness.Proof

open Lib Future Runner

/-! ## Summaries -/

/-- A `scenario_completed`. -/
def isVerdict (e : Emitted) : Bool := decide (e.event.kind = .scenarioCompleted)

/-- The `scenario_completed` events, in the order they are in the trace. -/
def verdicts (record : Record) : List TraceEvent :=
  ((trace record).filter isVerdict).map Emitted.event

/-- An entry of the scenario itself that is no `scenario_completed`. -/
def Aside (x : Label runner) : Prop :=
  x.place = root ∧ ∀ e, written x = some e → isVerdict e = false

section

variable {record record' l : Record} {rest k t : Run} {files : Files} {scenario : Scenario}

theorem verdicts_append : verdicts (record ++ record') = verdicts record ++ verdicts record' := by
  rw [verdicts, trace_append, List.filter_append, List.map_append]
  rfl

theorem verdicts_nil (h : ∀ x ∈ record, ∀ e, written x = some e → isVerdict e = false) :
    verdicts record = [] := by
  rw [verdicts, filter_trace_nil h, List.map_nil]

/-- What puts no bracket of the scenario completes none. -/
theorem not_verdict {x : Label runner} {e : Emitted} (hno : isScenarioMark x = false)
    (he : written x = some e) : isVerdict e = false := by
  rcases x with ⟨⟨q, call⟩, r⟩ | _
  · cases call with
    | emit event =>
        obtain rfl := Option.some.inj (emitted_of_written he)
        refine decide_eq_false fun hkind => ?_
        rw [isScenarioMark, show event.kind = .scenarioCompleted from hkind] at hno
        cases hno
    | _ => cases he
  · cases he

/-- No step completes the scenario. -/
theorem verdicts_step {q : Path} {idx : Nat} {step : Runner.StepDef}
    (h : (Runner.runStep q idx step).Runs record rest) : verdicts record = [] := by
  have hframed := h.within (runStepWith_framed fun resolved => executeStep_framed step _ resolved)
  exact verdicts_nil fun x hx e => not_verdict (hframed x hx).not_scenario

theorem verdicts_rounds {steps : List Runner.StepDef} {k : Nat}
    (h : Rounds (bodyStep steps root) 0 k record) : verdicts record = [] := by
  induction h with
  | nil => rfl
  | @snoc k _ l _ hround ih =>
      rw [verdicts_append, ih, List.nil_append]
      rcases hget : steps[k]? with _ | step
      · rw [bodyStep, hget] at hround
        rw [(Runs.ret hround).1]
        rfl
      · rw [bodyStep_some hget] at hround
        exact verdicts_step hround

/-- All of them are the scenario's own. -/
theorem verdicts_root {events : List OwnEvent}
    (h : (program files scenario events).Runs record rest) :
    verdicts (recordAt (AtOrBelow root) record) = verdicts record := by
  rw [verdicts, filter_trace_recordAt]
  · rfl
  · intro x hx hnot e he
    obtain ⟨-, hno⟩ := (h.within (program_outside files scenario events) x hx).resolve_left hnot
    exact not_verdict hno he

/-! ## What the scenario records for itself -/

theorem aside_emit {event : TraceEvent} {r : Except RunError Unit}
    (h : event.kind ≠ .scenarioCompleted) : Aside (.did ⟨root, .emit event⟩ r) := by
  refine ⟨rfl, fun e he => ?_⟩
  obtain rfl := Option.some.inj (emitted_of_written he)
  exact decide_eq_false h

theorem emits_aside {events : List TraceEvent} (h : Emits root events record)
    (hkind : ∀ event ∈ events, event.kind ≠ .scenarioCompleted) : ∀ x ∈ record, Aside x := by
  intro x hx
  obtain ⟨event, hevent, r, rfl⟩ := h.mem hx
  exact aside_emit (hkind event hevent)

/-- What is recorded at a path is not below it. -/
theorem own_untouched {q : Path} (h : ∀ x ∈ l, x.place = q) (seg : Seg) :
    Untouched l (seg :: q) := by
  intro x hx hat
  rw [h x hx] at hat
  exact not_atOrBelow_self seg q hat

theorem own_nothing {q : Path} (h : ∀ x ∈ l, x.place = q) (m : Nat) :
    recordAt (S := runner) (AtOrBelow (.step m :: q)) l = [] :=
  recordAt_none (own_untouched h (.step m))

/-- `emit_completed`, when it is through. -/
theorem emitCompleted_verdict {name outcome : String} {passed failed : Nat}
    {r : Except RunError Unit}
    (h : (emitCompleted name passed failed outcome (.ret r)).Runs record rest)
    (hfin : rest.finished = true) (hw : Written record) :
    rest = .ret r ∧ ∃ ms, verdicts record = [scenarioCompleted name passed failed ms outcome] := by
  rcases Runs.ask h with ⟨-, rfl⟩ | ⟨ms, l, rfl, hrest⟩
  · cases hfin
  obtain ⟨l₁, l₂, rfl, hemits, hret⟩ := emitIgnored_finished hrest hfin
  obtain ⟨rfl, rfl⟩ := Runs.ret hret
  refine ⟨rfl, ms, ?_⟩
  rw [List.append_nil] at hw ⊢
  rw [verdicts, show trace (.did ⟨root, .elapsed⟩ ms :: l₁) = trace l₁ from rfl,
    hemits.trace (hw.mono (List.subset_cons_self _ _))]
  rfl

/-- `cleanup` and `emit_completed`, when they are through. -/
theorem cleanup_verdict {name outcome : String} {passed failed : Nat} {r : Except RunError Unit}
    (h : (cleanup (emitCompleted name passed failed outcome (.ret r))).Runs record rest)
    (hfin : rest.finished = true) (hw : Written record) :
    rest = .ret r ∧ ∃ ms, verdicts record = [scenarioCompleted name passed failed ms outcome] := by
  rcases Runs.ask h with ⟨-, rfl⟩ | ⟨names, l, rfl, hclosed⟩
  · cases hfin
  obtain ⟨l₁, l₂, rfl, hemits, hcompleted⟩ := emitIgnored_finished hclosed hfin
  have haside : ∀ x ∈ l₁, Aside x := by
    refine emits_aside hemits fun event hevent => ?_
    obtain ⟨name, -, rfl⟩ := List.mem_map.mp hevent
    intro heq
    cases heq
  have hw₂ : Written l₂ := hw.mono fun x hx => List.mem_cons_of_mem _ (List.mem_append_right _ hx)
  obtain ⟨hrest, ms, hms⟩ := emitCompleted_verdict hcompleted hfin hw₂
  refine ⟨hrest, ms, ?_⟩
  rw [show verdicts (.did ⟨root, .openConnections⟩ names :: (l₁ ++ l₂)) = verdicts (l₁ ++ l₂)
    from rfl, verdicts_append, verdicts_nil fun x hx => (haside x hx).2, List.nil_append, hms]

theorem emitCompleted_place {name outcome : String} {passed failed : Nat}
    {r : Except RunError Unit}
    (h : (emitCompleted name passed failed outcome (.ret r)).Runs record rest) :
    ∀ x ∈ record, x.place = root :=
  h.within (emitCompleted_stays (P := (· = root)) rfl .ret)

theorem cleanup_place {name outcome : String} {passed failed : Nat} {r : Except RunError Unit}
    (h : (cleanup (emitCompleted name passed failed outcome (.ret r))).Runs record rest) :
    ∀ x ∈ record, x.place = root := by
  have hstays : Stays (· = root) (cleanup (emitCompleted name passed failed outcome (.ret r))) :=
    .ask rfl fun _ => emitIgnored_stays rfl (emitCompleted_stays rfl .ret)
  exact h.within hstays

end

/-! ## The steps -/

/-- What the steps of a scenario have recorded, and what is left of them. -/
inductive StepsRun (name : String) (steps : List Runner.StepDef) : Record → Run → Prop where
  | passed {ls l : Record} {rest : Run} (h : Rounds (bodyStep steps root) 0 steps.length ls)
      (hend : (emitCompleted name steps.length 0 "completed" (.ret (.ok ()))).Runs l rest) :
      StepsRun name steps (ls ++ l) rest
  | failed {j : Nat} {step : Runner.StepDef} {e : RunError} {ls l l' : Record} {rest : Run}
      (hget : steps[j]? = some step) (h : Rounds (bodyStep steps root) 0 j ls)
      (hfailed : (Runner.runStep root j step).Runs l (.ret (.error e)))
      (hend : (cleanup (emitCompleted name j 1 e.outcome (fail e))).Runs l' rest) :
      StepsRun name steps (ls ++ l ++ l') rest
  | going {j : Nat} {ls l : Record} {t rest : Run} (h : Rounds (bodyStep steps root) 0 j ls)
      (hround : (bodyStep steps root j).Runs l t) (hfin : rest.finished = false) :
      StepsRun name steps (ls ++ l) rest

section

variable {name : String} {steps later : List Runner.StepDef} {ls l record : Record} {rest : Run}

theorem runSteps_unfinished (i : Nat) : (Runner.runSteps name i later).finished = false := by
  cases later with
  | nil => rfl
  | cons step later => rfl

/-- The steps that are left, when the ones before have ended well. -/
theorem stepsRun_of_runs (done : List Runner.StepDef) (hsteps : done ++ later = steps)
    (hrounds : Rounds (bodyStep steps root) 0 done.length ls)
    (h : (Runner.runSteps name done.length later).Runs l rest) :
    StepsRun name steps (ls ++ l) rest := by
  induction later generalizing done ls l with
  | nil =>
      rw [List.append_nil] at hsteps
      subst hsteps
      exact .passed hrounds h
  | cons step later ih =>
      have hget : steps[done.length]? = some step := by
        rw [← hsteps, List.getElem?_append_right (Nat.le_refl _), Nat.sub_self]
        rfl
      have hlength : (done ++ [step]).length = done.length + 1 := List.length_append
      rw [Runner.runSteps] at h
      rcases h.bind with ⟨t, hround, rfl⟩ | ⟨r, l₁, l₂, rfl, hround, hafter⟩
      · rw [← bodyStep_some hget] at hround
        refine .going hrounds hround (finished_bind ?_)
        rintro (e | _)
        · rfl
        · exact runSteps_unfinished (done.length + 1)
      · rw [← List.append_assoc]
        cases r with
        | ok a =>
            rw [← bodyStep_some hget] at hround
            refine ih (done ++ [step]) (by rw [List.append_assoc]; exact hsteps) ?_ ?_
            · rw [hlength]
              exact hrounds.snoc hround
            · rw [hlength]
              exact hafter
        | error e => exact .failed hget hrounds hround hafter

/-! What is recorded at the steps says how far they have come. -/

theorem StepEnded.of_parts {q : Path} {j : Nat} {step : Runner.StepDef}
    {r : Except RunError Unit} {record' : Record} (h : StepEnded record q j step r)
    (heq : recordAt (AtOrBelow (.step j :: q)) record' =
      recordAt (S := runner) (AtOrBelow (.step j :: q)) record) :
    StepEnded record' q j step r := by
  rw [StepEnded, heq]
  exact h

theorem StepsPassed.of_parts {q : Path} {j : Nat} {record' : Record}
    (h : StepsPassed record q steps j)
    (heq : ∀ m < j, recordAt (AtOrBelow (.step m :: q)) record' =
      recordAt (S := runner) (AtOrBelow (.step m :: q)) record) : StepsPassed record' q steps j :=
  fun m hm step hget => (h m hm step hget).of_parts (heq m hm)

theorem BodyReached.of_parts {q : Path} {j : Nat} {record' : Record}
    (h : BodyReached record q steps j)
    (heq : ∀ m, recordAt (AtOrBelow (.step m :: q)) record' =
      recordAt (S := runner) (AtOrBelow (.step m :: q)) record) :
    BodyReached record' q steps j := by
  refine ⟨h.passed.of_parts fun m _ => heq m, fun m hm x hx hat => ?_⟩
  have hmem : x ∈ recordAt (S := runner) (AtOrBelow (.step m :: q)) record' :=
    mem_recordAt.mpr ⟨hx, hat⟩
  rw [heq m] at hmem
  exact h.later m hm x (mem_recordAt.mp hmem).1 hat

/-- What is recorded beside the steps does not matter. -/
theorem BodyReached.beside {q : Path} {j : Nat} (h : BodyReached record q steps j)
    (hown : ∀ x ∈ l, x.place = q) : BodyReached (record ++ l) q steps j := by
  refine h.of_parts fun m => ?_
  rw [recordAt_append, own_nothing hown m, List.append_nil]

end

/-! ## The verdict -/

/-- A fixture of one of the peers cannot be loaded, those of the peers before it can. -/
def Unloadable (files : Files) (peers : List Peer) (f : Fault) : Prop :=
  ∃ before peer after, peers = before ++ peer :: after ∧
    (∀ p ∈ before, ∃ ps, p.initialState files = .ok ps) ∧ peer.initialState files = .error f

/-- How a scenario has ended: its result, its summary, and how far it has come. -/
inductive Verdict (files : Files) (scenario : Scenario) (record : Record) :
    Except RunError Unit → Prop where
  /-- Without the fixtures of its peers no step is started, and there is no summary. -/
  | unloadable {peers f} (hnetwork : scenario.network = some peers)
      (hpeers : Unloadable files peers f) (huntouched : ∀ j, Untouched record (.step j :: root))
      (hverdicts : verdicts record = []) : Verdict files scenario record (.error (.ofFault [] f))
  /-- Every step has ended well. -/
  | passed {ms} (hsteps : BodyReached record root scenario.steps scenario.steps.length)
      (hverdicts : verdicts record =
        [scenarioCompleted scenario.name scenario.steps.length 0 ms "completed"]) :
      Verdict files scenario record (.ok ())
  /-- Step `j` has failed, and is the last that was started. -/
  | failed {j step e ms} (hget : scenario.steps[j]? = some step)
      (hsteps : BodyReached record root scenario.steps j)
      (hfailed : StepEnded record root j step (.error e))
      (hverdicts : verdicts record = [scenarioCompleted scenario.name j 1 ms e.outcome]) :
      Verdict files scenario record (.error e)

section

variable {files : Files} {scenario : Scenario} {events : List OwnEvent} {vars : VarStore}
  {record l before : Record} {rest k : Run} {r : Except RunError Unit}

/-- The initialisation of the peers goes through, or a fixture cannot be loaded. -/
theorem initPeers_stage {peers : List Peer} (h : (initPeers files k peers).Runs record rest)
    (hw : Written record) :
    (∃ l₁ l₂, record = l₁ ++ l₂ ∧ (∀ x ∈ l₁, Aside x) ∧ k.Runs l₂ rest) ∨
    ((∀ x ∈ record, Aside x) ∧ (rest.finished = false ∨
      ∃ f, Unloadable files peers f ∧ rest = .ret (.error (.ofFault [] f)))) := by
  induction peers generalizing record with
  | nil => exact Or.inl ⟨[], record, rfl, List.forall_mem_nil _, h⟩
  | cons peer peers ih =>
      rw [initPeers] at h
      rcases hload : peer.initialState files with f | ps
      · simp only [hload] at h
        obtain ⟨rfl, rfl⟩ := Runs.ret h
        exact Or.inr ⟨List.forall_mem_nil _, Or.inr ⟨f, ⟨[], peer, peers, rfl,
          List.forall_mem_nil _, hload⟩, rfl⟩⟩
      simp only [hload] at h
      rcases emit_runs h with ⟨rfl, hfin⟩ | ⟨e, rfl, -⟩ | ⟨l, rfl, hrest⟩
      · exact Or.inr ⟨List.forall_mem_nil _, Or.inl hfin⟩
      · cases hw.ok List.mem_cons_self
      have haside : Aside (.did ⟨root, .emit (peerStateInitialized peer ps)⟩ (.ok ())) :=
        aside_emit fun heq => by cases heq
      rcases ih hrest (hw.mono (List.subset_cons_self _ _)) with
        ⟨l₁, l₂, rfl, hasides, hk⟩ | ⟨hasides, hend⟩
      · exact Or.inl ⟨_ :: l₁, l₂, rfl, List.forall_mem_cons.mpr ⟨haside, hasides⟩, hk⟩
      · refine Or.inr ⟨List.forall_mem_cons.mpr ⟨haside, hasides⟩, hend.imp_right ?_⟩
        rintro ⟨f, ⟨before, p, after, rfl, hbefore, hp⟩, rfl⟩
        exact ⟨f, ⟨peer :: before, p, after, rfl,
          List.forall_mem_cons.mpr ⟨⟨ps, hload⟩, hbefore⟩, hp⟩, rfl⟩

/-- Where a scenario stands: before its steps, or among them. -/
theorem runScenario_stage (h : (runScenario files scenario).Runs record rest)
    (hw : Written record) :
    (∃ l₁ l₂, record = l₁ ++ l₂ ∧ (∀ x ∈ l₁, Aside x) ∧
      StepsRun scenario.name scenario.steps l₂ rest) ∨
    ((∀ x ∈ record, Aside x) ∧ (rest.finished = false ∨ ∃ peers f,
      scenario.network = some peers ∧ Unloadable files peers f ∧
        rest = .ret (.error (.ofFault [] f)))) := by
  have hsteps : ∀ {l}, (Runner.runSteps scenario.name 0 scenario.steps).Runs l rest →
      StepsRun scenario.name scenario.steps l rest :=
    fun hruns => stepsRun_of_runs [] rfl .nil hruns
  rcases emit_runs h with ⟨rfl, hfin⟩ | ⟨e, rfl, -⟩ | ⟨l, rfl, hrest⟩
  · exact Or.inr ⟨List.forall_mem_nil _, Or.inl hfin⟩
  · cases hw.ok List.mem_cons_self
  have hstarted : Aside (.did ⟨root, .emit (scenarioStarted scenario)⟩ (.ok ())) :=
    aside_emit fun heq => by cases heq
  rcases hnetwork : scenario.network with _ | peers
  · simp only [hnetwork] at hrest
    exact Or.inl ⟨[_], l, rfl, List.forall_mem_singleton.mpr hstarted, hsteps hrest⟩
  · simp only [hnetwork] at hrest
    rcases emit_runs hrest with ⟨rfl, hfin⟩ | ⟨e, rfl, -⟩ | ⟨l, rfl, hpeers⟩
    · exact Or.inr ⟨List.forall_mem_singleton.mpr hstarted, Or.inl hfin⟩
    · cases hw.ok (List.mem_cons_of_mem _ List.mem_cons_self)
    have hdeclared : Aside (.did ⟨root, .emit (networkDeclared peers)⟩ (.ok ())) :=
      aside_emit fun heq => by cases heq
    have hw' : Written l := hw.mono fun x hx => List.mem_cons_of_mem _ (List.mem_cons_of_mem _ hx)
    rcases initPeers_stage hpeers hw' with ⟨l₁, l₂, rfl, hasides, hk⟩ | ⟨hasides, hend⟩
    · exact Or.inl ⟨_ :: _ :: l₁, l₂, rfl,
        List.forall_mem_cons.mpr ⟨hstarted, List.forall_mem_cons.mpr ⟨hdeclared, hasides⟩⟩,
        hsteps hk⟩
    · refine Or.inr ⟨List.forall_mem_cons.mpr ⟨hstarted, List.forall_mem_cons.mpr
        ⟨hdeclared, hasides⟩⟩, hend.imp_right ?_⟩
      rintro ⟨f, hf, rfl⟩
      exact ⟨peers, f, rfl, hf, rfl⟩

/-- The program ends as its scenario does. -/
theorem scenario_result (h : (program files scenario events).Runs record (.ret r)) :
    (runScenario files scenario).Runs (recordAt (AtOrBelow root) record) (.ret r) := by
  refine Runs.join_decided (i := 0) h rfl (by decide) (runScenario_stays files scenario) ?_
  intro j d hj hget
  match j, hj, hget with
  | 1, _, hget =>
      obtain rfl := Option.some.inj hget
      exact ⟨workers_stays, fun l e => workers_ok⟩

theorem StepsRun.reached {name : String} {steps : List Runner.StepDef}
    (h : StepsRun name steps l rest) : ∃ j, BodyReached l root steps j := by
  cases h with
  | passed h hend => exact ⟨_, (bodyReached_of_rounds h).beside (emitCompleted_place hend)⟩
  | failed hget h hfailed hend =>
      rw [← bodyStep_some hget] at hfailed
      exact ⟨_, (bodyReached_append h hfailed).1.beside (cleanup_place hend)⟩
  | going h hround _ => exact ⟨_, (bodyReached_append h hround).1⟩

/-- The verdict over the steps, when they are through. -/
theorem StepsRun.verdict (h : StepsRun scenario.name scenario.steps l (.ret r)) (hw : Written l) :
    Verdict files scenario l r := by
  cases h with
  | @passed ls l _ h hend =>
      obtain ⟨heq, ms, hms⟩ :=
        emitCompleted_verdict hend rfl (hw.mono (List.subset_append_right _ _))
      obtain rfl := Future.ret.inj heq
      have hverdicts : verdicts (ls ++ l) =
          [scenarioCompleted scenario.name scenario.steps.length 0 ms "completed"] := by
        rw [verdicts_append, verdicts_rounds h, List.nil_append, hms]
      exact .passed ((bodyReached_of_rounds h).beside (emitCompleted_place hend)) hverdicts
  | @failed j step e ls l l' _ hget h hfailed hend =>
      obtain ⟨heq, ms, hms⟩ := cleanup_verdict hend rfl (hw.mono (List.subset_append_right _ _))
      obtain rfl := Future.ret.inj heq
      have hbefore : ∀ m, recordAt (S := runner) (AtOrBelow (.step m :: root)) (ls ++ l ++ l') =
          recordAt (AtOrBelow (.step m :: root)) (ls ++ l) := by
        intro m
        rw [recordAt_append, own_nothing (cleanup_place hend) m, List.append_nil]
      have hround := hfailed
      rw [← bodyStep_some hget] at hround
      obtain ⟨hreached, hat⟩ := bodyReached_append h hround
      have hverdicts : verdicts (ls ++ l ++ l') =
          [scenarioCompleted scenario.name j 1 ms e.outcome] := by
        rw [verdicts_append, verdicts_append, verdicts_rounds h, verdicts_step hfailed,
          List.nil_append, List.nil_append, hms]
      refine .failed hget (hreached.of_parts hbefore) ?_ hverdicts
      rwa [StepEnded, hbefore, hat]
  | going _ _ hfin => cases hfin

/-- A verdict is about what is recorded at the steps, and about the summaries. -/
theorem Verdict.of_parts {record' : Record} (h : Verdict files scenario record r)
    (hparts : ∀ m, recordAt (AtOrBelow (.step m :: root)) record' =
      recordAt (S := runner) (AtOrBelow (.step m :: root)) record)
    (hverdicts : verdicts record' = verdicts record) : Verdict files scenario record' r := by
  cases h with
  | unloadable hnetwork hpeers huntouched hnone =>
      refine .unloadable hnetwork hpeers (fun m => ?_) (hverdicts.trans hnone)
      exact (huntouched m).congr (hparts m)
  | passed hsteps hms => exact .passed (hsteps.of_parts hparts) (hverdicts.trans hms)
  | @failed j _ _ _ hget hsteps hfailed hms =>
      exact .failed hget (hsteps.of_parts hparts) (hfailed.of_parts (hparts j))
        (hverdicts.trans hms)

/-- What is recorded before the first step changes nothing. -/
theorem Verdict.behind (h : Verdict files scenario l r) (hasides : ∀ x ∈ before, Aside x) :
    Verdict files scenario (before ++ l) r := by
  have hparts : ∀ m, recordAt (S := runner) (AtOrBelow (.step m :: root)) (before ++ l) =
      recordAt (AtOrBelow (.step m :: root)) l := by
    intro m
    rw [recordAt_append, own_nothing (fun x hx => (hasides x hx).1) m, List.nil_append]
  have hverdicts : verdicts (before ++ l) = verdicts l := by
    rw [verdicts_append, verdicts_nil fun x hx => (hasides x hx).2, List.nil_append]
  exact h.of_parts hparts hverdicts

theorem untouched_of_asides (h : ∀ x ∈ l, Aside x) (m : Nat) : Untouched l (.step m :: root) := by
  intro x hx hat
  rw [(h x hx).1] at hat
  exact not_atOrBelow_self _ _ hat

/-- What is known of the part of a record that is the scenario's is known of the record. -/
theorem Verdict.whole (h : Verdict files scenario (recordAt (AtOrBelow root) record) r)
    (hrun : (program files scenario events).Runs record rest) :
    Verdict files scenario record r := by
  have hparts : ∀ m, recordAt (AtOrBelow (.step m :: root)) record = recordAt (S := runner)
      (AtOrBelow (.step m :: root)) (recordAt (AtOrBelow root) record) := fun m =>
    (recordAt_recordAt fun p hp => (atOrBelow_cons _ _).trans hp).symm
  exact h.of_parts hparts (verdicts_root hrun).symm

/-- **The verdict of a scenario.** At every moment of a run whose trace can be written, the
steps before some step have ended well and none behind it has been started. A run that has
come to an end has passed or stopped at the first step that failed, and its result and the
only `scenario_completed` in the trace say so; without one, a peer could not be loaded. -/
theorem scenario_verdict (hrun : ScenarioRun files scenario events vars record rest)
    (hw : Written record) :
    (∃ j, BodyReached record root scenario.steps j) ∧
      ∀ r, rest = .ret r → Verdict files scenario record r := by
  have hwritten : Written (recordAt (S := runner) (AtOrBelow root) record) :=
    hw.mono fun x hx => (mem_recordAt.mp hx).1
  constructor
  · obtain ⟨rest', hscenario, -⟩ := scenario_run hrun.runs
    have hreached : ∃ j, BodyReached (recordAt (AtOrBelow root) record) root scenario.steps j := by
      rcases runScenario_stage hscenario hwritten with ⟨l₁, l₂, heq, hasides, hsteps⟩ | ⟨hasides, -⟩
      · obtain ⟨j, hj⟩ := hsteps.reached
        refine ⟨j, heq ▸ hj.of_parts fun m => ?_⟩
        rw [recordAt_append, own_nothing (fun x hx => (hasides x hx).1) m, List.nil_append]
      · exact ⟨0, fun m hm => absurd hm (Nat.not_lt_zero m),
          fun m _ => untouched_of_asides hasides m⟩
    obtain ⟨j, hj⟩ := hreached
    refine ⟨j, hj.of_parts fun m => ?_⟩
    exact (recordAt_recordAt fun p hp => (atOrBelow_cons _ _).trans hp).symm
  · rintro r rfl
    refine Verdict.whole ?_ hrun.runs
    rcases runScenario_stage (scenario_result hrun.runs) hwritten with
      ⟨l₁, l₂, heq, hasides, hsteps⟩ | ⟨hasides, hend⟩
    · rw [heq] at hwritten ⊢
      exact (hsteps.verdict (hwritten.mono (List.subset_append_right _ _))).behind hasides
    · rcases hend with hfin | ⟨peers, f, hnetwork, hf, heq⟩
      · cases hfin
      · obtain rfl := Future.ret.inj heq
        exact .unloadable hnetwork hf (fun m => untouched_of_asides hasides m)
          (verdicts_nil fun x hx => (hasides x hx).2)

end

/-- The schedule of `sleptOnce`. -/
def interrupted : Schedule :=
  List.replicate 19 ([0], .ok ()) ++ ([0], .error (.error ["sleep interrupted"])) :: straight 8

/-- A scenario whose only step fails. -/
theorem sleptOnce_verdict :
    ∃ e, Verdict noFiles (scenarioOf [sleepTimes 2 none]) sleptOnce (.error e) := by
  have hrun : ScenarioRun noFiles (scenarioOf [sleepTimes 2 none]) [] (fun _ => none) sleptOnce
      (leftOver noFiles (scenarioOf [sleepTimes 2 none]) (fun _ => none) interrupted) :=
    simulated_run (by decide +kernel)
  have hfailed : (leftOver noFiles (scenarioOf [sleepTimes 2 none]) (fun _ => none)
      interrupted).failed = true := by decide +kernel
  have hw : Written sleptOnce := written_of_length (by decide +kernel)
  have hverdict := (scenario_verdict hrun hw).2
  rcases hleft : leftOver noFiles (scenarioOf [sleepTimes 2 none]) (fun _ => none) interrupted with
    (e | _) | _ | _
  · exact ⟨e, hverdict _ hleft⟩
  all_goals
    rw [hleft] at hfailed
    cases hfailed

end ConformanceHarness.Proof
