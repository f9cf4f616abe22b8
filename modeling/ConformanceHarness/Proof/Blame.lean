import ConformanceHarness.Proof.NothingSwallowed
import ConformanceHarness.Proof.ParallelRuns

/-!
# Where an error comes from

A step that fails may have failed of itself, or because a step inside it has. In the second case
it is the error of the inner step that it fails with. So an error comes from one step, which
has failed of itself, and every step around it, up to the scenario, has ended with this error.
-/

namespace ConformanceHarness.Proof

open Lib Future Runner

/-! ## Blame -/

/-- A step that has ended with `e` was not made to by a step inside it. -/
inductive OwnError (record : Record) (p : Path) : Runner.StepDef → RunError → Prop where
  | leaf {kind common e} : OwnError record p (.leaf kind common) e
  /-- It has not come to start a step. -/
  | unstarted {step e} (h : ∀ seg, Untouched record (seg :: p)) : OwnError record p step e
  /-- All iterations have ended well, and the assertions of the step do not hold. -/
  | repeated {common body n} (h : AllPassed record p body n) :
      OwnError record p (.repeat common body) .assertionFailure
  /-- All branches have ended well, and the assertions of the step do not hold. -/
  | joined {common branches} (h : BranchesPassed record p branches) :
      OwnError record p (.parallel common branches) .assertionFailure

/-- The step has ended with `e`, as every step has on the way to the one that `e` comes from. -/
inductive Blame (record : Record) (e : RunError) : Path → Nat → Runner.StepDef → Prop where
  | own {q idx step} (hended : StepEnded record q idx step (.error e))
      (h : OwnError record (.step idx :: q) step e) : Blame record e q idx step
  | iteration {q idx common body k j inner}
      (hended : StepEnded record q idx (.repeat common body) (.error e))
      (hget : body[j]? = some inner) (h : Blame record e (.iteration k :: .step idx :: q) j inner) :
      Blame record e q idx (.repeat common body)
  | branch {q idx common branches bi steps j inner}
      (hended : StepEnded record q idx (.parallel common branches) (.error e))
      (hbranch : branches[bi]? = some steps) (hget : steps[j]? = some inner)
      (h : Blame record e (.branch bi :: .step idx :: q) j inner) :
      Blame record e q idx (.parallel common branches)

section

variable {record exec : Record} {e : RunError} {q p : Path} {idx : Nat} {step : Runner.StepDef}
  {common : Common} {body : List Runner.StepDef} {branches : List (List Runner.StepDef)}
  {resolved : Value} {left : Run}

/-! ## From a step to what is inside it -/

/-- A step below is looked up in the record of the step around it. -/
theorem part_inside (seg : Seg) (j : Nat) : recordAt (AtOrBelow (.step j :: seg :: p)) record =
    recordAt (S := runner) (AtOrBelow (.step j :: seg :: p)) (recordAt (AtOrBelow p) record) :=
  (recordAt_recordAt fun _ hr =>
    ((atOrBelow_cons seg p).trans (atOrBelow_cons (.step j) (seg :: p))).trans hr).symm

theorem StepEnded.inside {seg : Seg} {j : Nat} {r : Except RunError Unit}
    (h : StepEnded (recordAt (AtOrBelow p) record) (seg :: p) j step r) :
    StepEnded record (seg :: p) j step r := h.of_parts (part_inside seg j)

/-- Without anything below, no step has been started. -/
theorem untouched_of_places (h : ∀ x ∈ recordAt (S := runner) (AtOrBelow p) record, x.place = p)
    (seg : Seg) : Untouched record (seg :: p) := by
  intro x hx hat
  have hmem : x ∈ recordAt (S := runner) (AtOrBelow p) record :=
    mem_recordAt.mpr ⟨hx, (atOrBelow_cons seg p).trans hat⟩
  exact own_untouched h seg x hmem hat

/-- A `repeat` step that goes into its body has read how often. -/
theorem execute_repeat (h : (Runner.executeStep (.repeat common body) p resolved).Runs exec left) :
    (exec = [] ∧ ∃ e, left = .ret (.error e)) ∨
      ∃ n, (StepParams.fromValue resolved).isSome = true ∧ times resolved = .ok n := by
  rw [Runner.executeStep] at h
  rcases hparams : StepParams.fromValue resolved with _ | params
  · simp only [hparams] at h
    obtain ⟨rfl, rfl⟩ := Runs.ret h
    exact Or.inl ⟨rfl, _, rfl⟩
  · rcases htimes : times resolved with e | n
    · simp only [hparams, htimes] at h
      obtain ⟨rfl, rfl⟩ := Runs.ret h
      exact Or.inl ⟨rfl, _, rfl⟩
    · exact Or.inr ⟨n, rfl, rfl⟩

/-- A step whose parameters do not parse to steps does nothing. -/
theorem execute_malformed {error : List String}
    (hstep : step = .malformedRepeat common error ∨ step = .malformedParallel common error)
    (h : (Runner.executeStep step p resolved).Runs exec left) : exec = [] := by
  rcases hstep with rfl | rfl
  · rw [Runner.executeStep] at h
    rcases hparams : StepParams.fromValue resolved with _ | params
    · simp only [hparams] at h
      exact (Runs.ret h).1
    · rcases htimes : times resolved with e | n
      all_goals
        simp only [hparams, htimes] at h
        exact (Runs.ret h).1
  · rw [Runner.executeStep] at h
    rcases hparams : StepParams.fromValue resolved with _ | params
    all_goals
      simp only [hparams] at h
      exact (Runs.ret h).1

/-- What an execution records, if it does nothing but for the frame around it. -/
theorem unstarted_of_parts {pre post : Record}
    (hrecord : recordAt (S := runner) (AtOrBelow p) record = pre ++ [] ++ post)
    (hpre : ∀ x ∈ pre, x.place = p) (hpost : ∀ x ∈ post, x.place = p) (seg : Seg) :
    Untouched record (seg :: p) := by
  refine untouched_of_places (fun x hx => ?_) seg
  rw [hrecord, List.append_nil] at hx
  exact (List.mem_append.mp hx).elim (hpre x) (hpost x)

/-- A `repeat` step fails of itself, or one of its steps has failed with the same error. -/
theorem repeat_blame (hw : Written record)
    (h : StepEnded record q idx (.repeat common body) (.error e)) :
    OwnError record (.step idx :: q) (.repeat common body) e ∨
      ∃ k j inner, body[j]? = some inner ∧
        StepEnded record (.iteration k :: .step idx :: q) j inner (.error e) := by
  have hwritten : Written (recordAt (S := runner) (AtOrBelow (.step idx :: q)) record) :=
    hw.mono fun x hx => (mem_recordAt.mp hx).1
  cases stepParts_of_runs h hwritten with
  | idle hplace _ => exact Or.inl (.unstarted (untouched_of_places hplace))
  | @executed pre exec post vars resolved refs left hrecord hpre hpost hsnapshot hsub hexec _ =>
      rcases execute_repeat hexec with ⟨rfl, -⟩ | ⟨n, hread, htimes⟩
      · exact Or.inl (.unstarted (unstarted_of_parts hrecord hpre hpost))
      have hmem : .did ⟨.step idx :: q, .snapshot (Runner.StepDef.repeat common body).substituted⟩
          vars ∈ recordAt (S := runner) (AtOrBelow (.step idx :: q)) record := by
        rw [hrecord]
        exact List.mem_append_left _ (List.mem_append_left _ hsnapshot)
      have hrepeats : Repeats record (.step idx :: q) n := by
        refine ⟨_, (mem_recordAt.mp hmem).1, ?_⟩
        simp only [asksFor, hsub, hread, htimes, decide_true, Bool.and_self, Except.toOption]
      cases repeatOutcome_of_runs hw hrepeats h with
      | passed hpassed hend =>
          rcases hend rfl with heq | heq
          · cases heq
          · obtain rfl := Except.error.inj (Future.ret.inj heq)
            exact Or.inl (.repeated hpassed)
      | @failed k j e' hfailed hend =>
          obtain rfl := Except.error.inj (Future.ret.inj (hend rfl))
          obtain ⟨inner, hget, hinner⟩ := hfailed.failed
          exact Or.inr ⟨k, j, inner, hget, hinner⟩
      | underway _ hfin => cases hfin

/-- A `parallel` step fails of itself, or a step of one of its branches has failed with the same
error. -/
theorem parallel_blame (hw : Written record)
    (h : StepEnded record q idx (.parallel common branches) (.error e)) :
    OwnError record (.step idx :: q) (.parallel common branches) e ∨
      ∃ bi steps j inner, branches[bi]? = some steps ∧ steps[j]? = some inner ∧
        StepEnded record (.branch bi :: .step idx :: q) j inner (.error e) := by
  have hwritten : Written (recordAt (S := runner) (AtOrBelow (.step idx :: q)) record) :=
    hw.mono fun x hx => (mem_recordAt.mp hx).1
  cases stepParts_of_runs h hwritten with
  | idle hplace _ => exact Or.inl (.unstarted (untouched_of_places hplace))
  | @executed pre exec post vars resolved refs left hrecord hpre hpost _ _ hexec hend =>
      obtain ⟨result, r, rfl, hleft, hcloses⟩ := hend rfl
      obtain rfl := Future.ret.inj hleft
      have hwritten' : Written exec := hwritten.mono fun x hx => by
        rw [hrecord]
        exact List.mem_append_left _ (List.mem_append_right _ hx)
      rcases execute_parallel hexec hwritten' with ⟨rfl, -⟩ | hparallel
      · exact Or.inl (.unstarted (unstarted_of_parts hrecord hpre hpost))
      cases hparallel.around ⟨pre, post, hrecord, hpre, hpost⟩ with
      | passed hpassed =>
          cases hcloses with
          | asserted _ =>
              exact Or.inl (.joined fun bi steps hget =>
                (hpassed bi steps hget).of_parts fun m => part_inside (.branch bi) m)
      | @failed bi j e' _ hfailed =>
          cases hcloses with
          | erred =>
              obtain ⟨steps, inner, hbranch, hget, -, hinner⟩ := hfailed.step
              exact Or.inr ⟨bi, steps, j, inner, hbranch, hget, hinner.inside⟩
      | going _ hopen => cases hopen

/-- A step whose steps do not parse fails of itself. -/
theorem malformed_blame {error : List String} (hw : Written record)
    (hstep : step = .malformedRepeat common error ∨ step = .malformedParallel common error)
    (h : StepEnded record q idx step (.error e)) : OwnError record (.step idx :: q) step e := by
  have hwritten : Written (recordAt (S := runner) (AtOrBelow (.step idx :: q)) record) :=
    hw.mono fun x hx => (mem_recordAt.mp hx).1
  cases stepParts_of_runs h hwritten with
  | idle hplace _ => exact .unstarted (untouched_of_places hplace)
  | @executed pre exec post vars resolved refs left hrecord hpre hpost _ _ hexec _ =>
      obtain rfl := execute_malformed hstep hexec
      exact .unstarted (unstarted_of_parts hrecord hpre hpost)

end

/-! ## All the way down -/

section

variable {record : Record} {e : RunError}

mutual

/-- **Every error comes from somewhere.** A step that has ended with an error has failed of itself,
or has passed on the error of a step inside it for which the same is true. -/
theorem blame_of_ended (hw : Written record) (step : Runner.StepDef) {q : Path} {idx : Nat}
    (h : StepEnded record q idx step (.error e)) : Blame record e q idx step := by
  cases step with
  | leaf kind common => exact .own h .leaf
  | «repeat» common body =>
      rcases repeat_blame hw h with hown | ⟨k, j, inner, hget, hinner⟩
      · exact .own h hown
      · exact .iteration h hget (blame_of_body hw body (List.mem_of_getElem? hget) hinner)
  | malformedRepeat common error => exact .own h (malformed_blame hw (Or.inl rfl) h)
  | parallel common branches =>
      rcases parallel_blame hw h with hown | ⟨bi, steps, j, inner, hbranch, hget, hinner⟩
      · exact .own h hown
      · exact .branch h hbranch hget (blame_of_branches hw branches
          (List.mem_of_getElem? hbranch) (List.mem_of_getElem? hget) hinner)
  | malformedParallel common error => exact .own h (malformed_blame hw (Or.inr rfl) h)

theorem blame_of_body (hw : Written record) (body : List Runner.StepDef) {step : Runner.StepDef}
    {q : Path} {idx : Nat} (hmem : step ∈ body) (h : StepEnded record q idx step (.error e)) :
    Blame record e q idx step := by
  cases body with
  | nil => exact absurd hmem List.not_mem_nil
  | cons first rest =>
      rcases List.mem_cons.mp hmem with heq | hmem
      · rw [heq] at h ⊢
        exact blame_of_ended hw first h
      · exact blame_of_body hw rest hmem h

theorem blame_of_branches (hw : Written record) (branches : List (List Runner.StepDef))
    {steps : List Runner.StepDef} {step : Runner.StepDef} {q : Path} {idx : Nat}
    (hbranch : steps ∈ branches) (hmem : step ∈ steps)
    (h : StepEnded record q idx step (.error e)) : Blame record e q idx step := by
  cases branches with
  | nil => exact absurd hbranch List.not_mem_nil
  | cons first rest =>
      rcases List.mem_cons.mp hbranch with heq | hbranch
      · rw [heq] at hmem
        exact blame_of_body hw first hmem h
      · exact blame_of_branches hw rest hbranch hmem h

end

variable {files : Files} {scenario : Scenario} {events : List OwnEvent} {vars : VarStore}
  {rest : Run}

/-- **Errors are passed up unchanged.** If a scenario whose trace can be written has ended with an
error, then a peer could not be loaded, or the error comes from a step that has failed of itself,
and every step around that one has ended with it. The same is true of every step that has failed,
even if it was in a branch that did not decide how the scenario ended. -/
theorem errors_passed_up (hrun : ScenarioRun files scenario events vars record rest)
    (hw : Written record) :
    (∀ e, rest = .ret (.error e) → PeerFault files scenario e ∨
      ∃ j step, scenario.steps[j]? = some step ∧ Blame record e root j step) ∧
    ∀ {q idx step e}, StepEnded record q idx step (.error e) → Blame record e q idx step := by
  constructor
  · rintro e rfl
    cases (scenario_verdict hrun hw).2 _ rfl with
    | unloadable hnetwork hpeers _ _ => exact Or.inl ⟨_, _, hnetwork, hpeers, rfl⟩
    | failed hget _ hfailed _ => exact Or.inr ⟨_, _, hget, blame_of_ended hw _ hfailed⟩
  · exact fun h => blame_of_ended hw _ h

end

/-- The error of the second sleep is that of the scenario. -/
theorem sleptOnce_passed_up : ∃ e j step,
    leftOver noFiles (scenarioOf [sleepTimes 2 none]) (fun _ => none) interrupted =
      .ret (.error e) ∧
    (scenarioOf [sleepTimes 2 none]).steps[j]? = some step ∧ Blame sleptOnce e root j step := by
  have hrun : ScenarioRun noFiles (scenarioOf [sleepTimes 2 none]) [] (fun _ => none) sleptOnce
      (leftOver noFiles (scenarioOf [sleepTimes 2 none]) (fun _ => none) interrupted) :=
    simulated_run (by decide +kernel)
  have hw : Written sleptOnce := written_of_length (by decide +kernel)
  have hfailed : (leftOver noFiles (scenarioOf [sleepTimes 2 none]) (fun _ => none)
      interrupted).failed = true := by decide +kernel
  have hblame := (errors_passed_up hrun hw).1
  rcases hleft : leftOver noFiles (scenarioOf [sleepTimes 2 none]) (fun _ => none) interrupted with
    (e | _) | _ | _
  · rcases hblame e hleft with ⟨peers, f, hnetwork, -, -⟩ | ⟨j, step, hget, h⟩
    · cases hnetwork
    · exact ⟨e, j, step, rfl, hget, h⟩
  all_goals
    rw [hleft] at hfailed
    cases hfailed

end ConformanceHarness.Proof
