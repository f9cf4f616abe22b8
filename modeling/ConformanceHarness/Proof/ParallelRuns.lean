import ConformanceHarness.Proof.ParallelBranches
import ConformanceHarness.Proof.Verdicts

/-!
# Parallel steps fail fast

The branches of a `parallel` step run side by side, each through its steps one after the
other. The first step that fails ends its branch, and with it all the others, wherever they
stand. This module takes the run of such a step apart branch by branch, as `RepeatRuns` does
it iteration by iteration.
-/

namespace ConformanceHarness.Proof

open Lib Future Runner

/-! ## One branch -/

/-- The branch at `q` reports that it has failed. -/
def reportsFailure (q : Path) : Label runner → Bool
  | .did ⟨q', .emit event⟩ _ => decide (q' = q) && decide (event.kind = .parallelBranchFailed)
  | _ => false

/-- How far a branch has come. -/
inductive BranchRun (q : Path) (bi : Nat) (steps : List Runner.StepDef) (record : Record) :
    Run → Prop where
  | passed (h : BodyReached record q steps steps.length) :
      BranchRun q bi steps record (.ret (.ok ()))
  /-- The report of the step that has failed is the last thing it does. -/
  | failed {j step e l} (hget : steps[j]? = some step) (h : BodyReached record q steps j)
      (hfailed : StepEnded record q j step (.error e))
      (hlast : record = l ++ [.did ⟨q, .emit (branchFailed bi j e)⟩ (.ok ())]) :
      BranchRun q bi steps record (.ret (.error e))
  | going {j rest} (h : BodyReached record q steps j)
      (hunreported : ∀ x ∈ record, reportsFailure q x = false) (hfin : rest.finished = false) :
      BranchRun q bi steps record rest

/-- The steps before `i` have ended well, no other has been started, and no failure is reported. -/
structure BranchPassed (record : Record) (q : Path) (steps : List Runner.StepDef) (i : Nat) :
    Prop where
  passed : StepsPassed record q steps i
  later : ∀ m, i ≤ m → Untouched record (.step m :: q)
  unreported : ∀ x ∈ record, reportsFailure q x = false

section

variable {q : Path} {bi i : Nat} {steps later : List Runner.StepDef} {step : Runner.StepDef}
  {record before l : Record} {rest t : Run}

theorem BranchPassed.reached (h : BranchPassed record q steps i) : BodyReached record q steps i :=
  ⟨h.passed, fun m hm => h.later m (Nat.le_of_lt hm)⟩

/-- What a branch records for itself, without a report. -/
def Unreported (q : Path) (l : Record) : Prop :=
  ∀ x ∈ l, x.place = q ∧ reportsFailure q x = false

theorem BranchPassed.beside (h : BranchPassed before q steps i) (hown : Unreported q l) :
    BranchPassed (before ++ l) q steps i := by
  have hplace : ∀ x ∈ l, x.place = q := fun x hx => (hown x hx).1
  refine ⟨h.passed.of_parts fun m _ => ?_, fun m hm x hx hat => ?_, fun x hx => ?_⟩
  · rw [recordAt_append, own_nothing hplace m, List.append_nil]
  · rcases List.mem_append.mp hx with hx | hx
    · exact h.later m hm x hx hat
    · exact own_untouched hplace (.step m) x hx hat
  · rcases List.mem_append.mp hx with hx | hx
    · exact h.unreported x hx
    · exact (hown x hx).2

theorem unreported_below {s : Seg} {x : Label runner} (h : AtOrBelow (s :: q) x.place) :
    reportsFailure q x = false := by
  rcases x with ⟨⟨q', call⟩, r⟩ | _
  · cases call with
    | emit event =>
        have hne : q' ≠ q := by
          rintro rfl
          exact not_atOrBelow_self s q' h
        rw [reportsFailure, decide_eq_false hne, Bool.false_and]
    | _ => rfl
  · rfl

/-- What is known while the next step of a branch is running, or has just ended. -/
structure DuringStep (record : Record) (q : Path) (steps : List Runner.StepDef) (i : Nat)
    (l : Record) : Prop where
  reached : BodyReached record q steps i
  at_ : recordAt (AtOrBelow (.step i :: q)) record = l
  unreported : ∀ x ∈ record, reportsFailure q x = false

theorem BranchPassed.during (h : BranchPassed before q steps i)
    (hruns : (Runner.runStep q i step).Runs l t) : DuringStep (before ++ l) q steps i l := by
  have hat : ∀ x ∈ l, AtOrBelow (.step i :: q) x.place := hruns.within runStep_stays
  have haway : ∀ m, m ≠ i → ∀ x ∈ l, ¬ AtOrBelow (.step m :: q) x.place :=
    fun m hm x hx hx' => hm (Seg.step.inj (seg_unique hx' (hat x hx)))
  refine ⟨⟨h.passed.of_parts fun m hm => ?_, fun m hm x hx => ?_⟩, ?_, fun x hx => ?_⟩
  · rw [recordAt_append, recordAt_none (haway m (Nat.ne_of_lt hm)), List.append_nil]
  · rcases List.mem_append.mp hx with hx | hx
    · exact h.later m (Nat.le_of_lt hm) x hx
    · exact haway m (Nat.ne_of_gt hm) x hx
  · rw [recordAt_append, recordAt_none (h.later i (Nat.le_refl i)), List.nil_append,
      recordAt_self hat]
  · rcases List.mem_append.mp hx with hx | hx
    · exact h.unreported x hx
    · exact unreported_below (hat x hx)

theorem DuringStep.next (h : DuringStep record q steps i l) (hget : steps[i]? = some step)
    (hruns : (Runner.runStep q i step).Runs l (.ret (.ok ()))) :
    BranchPassed record q steps (i + 1) := by
  refine ⟨fun m hm step' hget' => ?_, fun m hm => h.reached.later m hm, h.unreported⟩
  rcases Nat.lt_succ_iff_lt_or_eq.mp hm with hlt | rfl
  · exact h.reached.passed m hlt step' hget'
  · obtain rfl := Option.some.inj (hget.symm.trans hget')
    rw [StepEnded, h.at_]
    exact hruns

/-- The end of a branch whose steps have all ended well. -/
theorem branchRun_completed (hpassed : BranchPassed before q steps steps.length)
    (h : (runBranch [] q bi steps.length).Runs l rest) (hw : Written l) :
    BranchRun q bi steps (before ++ l) rest := by
  rw [runBranch] at h
  rcases Runs.ask h with ⟨rfl, rfl⟩ | ⟨b, l, rfl, hrest⟩
  · rw [List.append_nil]
    exact .going hpassed.reached hpassed.unreported rfl
  have hstored : Unreported q [.did ⟨q, .storeCompleted⟩ b] :=
    List.forall_mem_singleton.mpr ⟨rfl, rfl⟩
  rw [List.append_cons]
  rcases emit_runs hrest with ⟨rfl, hfin⟩ | ⟨e, rfl, -⟩ | ⟨l, rfl, hret⟩
  · rw [List.append_nil]
    exact .going (hpassed.beside hstored).reached (hpassed.beside hstored).unreported hfin
  · exact nomatch hw.ok (List.mem_cons_of_mem _ List.mem_cons_self)
  · obtain ⟨rfl, rfl⟩ := Runs.ret hret
    exact .passed ((hpassed.beside hstored).reached.beside (List.forall_mem_singleton.mpr rfl))

/-- The end of a branch that has failed. -/
theorem branchRun_failed {e : RunError} (h : DuringStep record q steps i l)
    (hget : steps[i]? = some step) (hfailed : (Runner.runStep q i step).Runs l (.ret (.error e)))
    {after : Record} (hafter : Runs (S := runner) (.ask ⟨q, .storeFailed⟩ fun _ =>
      emitIgnored q [branchFailed bi i e] (fail e)) after rest) (hw : Written after) :
    BranchRun q bi steps (record ++ after) rest := by
  rcases Runs.ask hafter with ⟨rfl, rfl⟩ | ⟨b, l', rfl, hreport⟩
  · rw [List.append_nil]
    exact .going h.reached h.unreported rfl
  rw [List.append_cons]
  have hstored : ∀ x ∈ [Label.did (S := runner) ⟨q, .storeFailed⟩ b], x.place = q :=
    List.forall_mem_singleton.mpr rfl
  have hreached := h.reached.beside hstored
  rcases Runs.ask hreport with ⟨rfl, rfl⟩ | ⟨r, l', rfl, hret⟩
  · rw [List.append_nil]
    refine .going hreached (fun x hx => ?_) rfl
    rcases List.mem_append.mp hx with hx | hx
    · exact h.unreported x hx
    · rw [List.mem_singleton.mp hx]
      rfl
  · obtain ⟨rfl, rfl⟩ := Runs.ret hret
    obtain rfl := hw.ok (List.mem_cons_of_mem _ List.mem_cons_self)
    have hlast : ∀ x ∈ [Label.did (S := runner) ⟨q, .emit (branchFailed bi i e)⟩ (.ok ())],
        x.place = q := List.forall_mem_singleton.mpr rfl
    refine .failed hget (hreached.beside hlast) ?_ rfl
    rw [StepEnded, recordAt_append, recordAt_append, own_nothing hstored i, own_nothing hlast i,
      List.append_nil, List.append_nil, h.at_]
    exact hfailed

/-- The steps that are left of a branch, when the ones before have ended well. -/
theorem branchRun_of_passed (done : List Runner.StepDef) (hsteps : done ++ later = steps)
    (hpassed : BranchPassed before q steps done.length)
    (h : (runBranch later q bi done.length).Runs l rest) (hw : Written l) :
    BranchRun q bi steps (before ++ l) rest := by
  induction later generalizing done before l with
  | nil =>
      rw [List.append_nil] at hsteps
      subst hsteps
      exact branchRun_completed hpassed h hw
  | cons step later ih =>
      have hget : steps[done.length]? = some step := by
        rw [← hsteps, List.getElem?_append_right (Nat.le_refl _), Nat.sub_self]
        rfl
      have hlength : (done ++ [step]).length = done.length + 1 := List.length_append
      rw [runBranch] at h
      rcases Runs.ask h with ⟨rfl, rfl⟩ | ⟨b, l, rfl, hrest⟩
      · rw [List.append_nil]
        exact .going hpassed.reached hpassed.unreported rfl
      have hstored : Unreported q [.did ⟨q, .storeLastStep done.length⟩ b] :=
        List.forall_mem_singleton.mpr ⟨rfl, rfl⟩
      have hstarted := hpassed.beside hstored
      rw [List.append_cons]
      rcases hrest.bind with ⟨t, hround, rfl⟩ | ⟨r, l₁, l₂, rfl, hround, hafter⟩
      · have hduring := hstarted.during hround
        refine .going hduring.reached hduring.unreported (finished_bind fun r => ?_)
        cases r with
        | ok a => exact runBranch_unfinished later _ _
        | error e => rfl
      · have hw₂ : Written l₂ :=
          hw.mono fun x hx => List.mem_cons_of_mem _ (List.mem_append_right _ hx)
        rw [← List.append_assoc]
        cases r with
        | ok a =>
            have hnext := (hstarted.during hround).next hget hround
            rw [← hlength] at hnext hafter
            exact ih (done ++ [step]) (by rw [List.append_assoc]; exact hsteps) hnext hafter hw₂
        | error e => exact branchRun_failed (hstarted.during hround) hget hround hafter hw₂

/-- **A branch ends with the first step that fails**, if the trace can be written. -/
theorem branchRun_of_runs (h : (emit q (branchStarted bi) (runBranch steps q bi 0)).Runs l rest)
    (hw : Written l) : BranchRun q bi steps l rest := by
  have hnone : BranchPassed [] q steps 0 :=
    ⟨fun m hm => (nomatch hm), fun m _ x hx => (nomatch hx), fun x hx => nomatch hx⟩
  rcases emit_runs h with ⟨rfl, hfin⟩ | ⟨e, rfl, -⟩ | ⟨l, rfl, hrest⟩
  · exact .going hnone.reached hnone.unreported hfin
  · exact nomatch hw.ok List.mem_cons_self
  · have hstarted : Unreported q [.did ⟨q, .emit (branchStarted bi)⟩ (.ok ())] :=
      List.forall_mem_singleton.mpr ⟨rfl, Bool.and_false _⟩
    exact branchRun_of_passed [] rfl (hnone.beside hstarted) hrest
      (hw.mono (List.subset_cons_self _ _))

end

/-! ## All branches -/

/-- Every branch has come as far as its steps have ended well. -/
def BranchesReached (record : Record) (p : Path) (branches : List (List Runner.StepDef)) : Prop :=
  ∀ bi steps, branches[bi]? = some steps → ∃ j, BodyReached record (.branch bi :: p) steps j

/-- Every step of every branch has ended well. -/
def BranchesPassed (record : Record) (p : Path) (branches : List (List Runner.StepDef)) : Prop :=
  ∀ bi steps, branches[bi]? = some steps → BodyReached record (.branch bi :: p) steps steps.length

/-- Step `j` of branch `bi` has failed, and since it was reported no branch has done anything. -/
structure BranchFailed (record : Record) (p : Path) (branches : List (List Runner.StepDef))
    (bi j : Nat) (e : RunError) : Prop where
  step : ∃ steps step, branches[bi]? = some steps ∧ steps[j]? = some step ∧
    BodyReached record (.branch bi :: p) steps j ∧
    StepEnded record (.branch bi :: p) j step (.error e)
  last : ∃ before after,
    record = before ++ .did ⟨.branch bi :: p, .emit (branchFailed bi j e)⟩ (.ok ()) :: after ∧
    ∀ x ∈ after, x.place = p

/-- What the branches have recorded, and what is left of the step. -/
inductive ParallelRun (p : Path) (branches : List (List Runner.StepDef)) (record : Record) :
    Run → Prop where
  | passed (h : BranchesPassed record p branches) : ParallelRun p branches record (.ret (.ok ()))
  | failed {bi j e} (hreached : BranchesReached record p branches)
      (h : BranchFailed record p branches bi j e) : ParallelRun p branches record (.ret (.error e))
  | going {rest} (hreached : BranchesReached record p branches) (hfin : rest.finished = false) :
      ParallelRun p branches record rest

section

variable {p : Path} {bi j : Nat} {branches : List (List Runner.StepDef)}
  {steps : List Runner.StepDef} {branches' : List Run} {record record' l : Record} {c rest : Run}

/-- The future of a branch. -/
abbrev branchFuture (p : Path) (bi : Nat) (steps : List Runner.StepDef) : Run :=
  emit (.branch bi :: p) (branchStarted bi) (runBranch steps (.branch bi :: p) bi 0)

theorem branchFuture_stays (steps : List Runner.StepDef) (p : Path) (bi : Nat) :
    Stays (AtOrBelow (.branch bi :: p)) (branchFuture p bi steps) := by
  have hself : AtOrBelow (.branch bi :: p) (.branch bi :: p) := List.suffix_refl _
  refine emit_stays hself ((runBranch_stays steps (.branch bi :: p) bi 0).imp ?_)
  rintro r (rfl | ⟨j, -, hr⟩)
  · exact hself
  · exact (atOrBelow_cons _ _).trans hr

theorem branchFutures_some (hget : branches[bi]? = some steps) :
    (branchFutures branches p 0)[bi]? = some (branchFuture p bi steps) := by
  rw [branchFutures_getElem, hget, Nat.zero_add]
  rfl

/-- What is recorded at a branch and below is a run of this branch. -/
theorem branch_runs (h : Branches (branchFutures branches p 0) l branches')
    (hget : branches[bi]? = some steps) : ∃ c, branches'[bi]? = some c ∧
      (branchFuture p bi steps).Runs (recordAt (AtOrBelow (.branch bi :: p)) l) c := by
  refine h.branch (branchFutures_some hget) (branchFuture_stays steps p bi) fun j d hj hd => ?_
  have hstays := branchFutures_stays branches p 0 j d hd
  rw [Nat.zero_add] at hstays
  exact hstays.imp fun r hr hr' => hj (Seg.branch.inj (seg_unique hr hr'))

/-- What is known of a branch depends only on what is recorded at it and below. -/
theorem BodyReached.in_branch
    (h : BodyReached (recordAt (AtOrBelow (.branch bi :: p)) l) (.branch bi :: p) steps j) :
    BodyReached l (.branch bi :: p) steps j :=
  h.congr (recordAt_recordAt fun _ hr => hr).symm

theorem BranchRun.reached (h : BranchRun (.branch bi :: p) bi steps l rest) :
    ∃ j, BodyReached l (.branch bi :: p) steps j := by
  cases h with
  | passed h => exact ⟨_, h⟩
  | failed _ h _ _ => exact ⟨_, h⟩
  | going h _ _ => exact ⟨_, h⟩

theorem branches_reached (h : Branches (branchFutures branches p 0) l branches') (hw : Written l) :
    BranchesReached l p branches := by
  intro bi steps hget
  obtain ⟨c, -, hruns⟩ := branch_runs h hget
  obtain ⟨j, hj⟩ := (branchRun_of_runs hruns (hw.mono (List.filter_subset_self l))).reached
  exact ⟨j, hj.in_branch⟩

theorem branches_passed (h : Branches (branchFutures branches p 0) l branches') (hw : Written l)
    (hall : ∀ c ∈ branches', c = .ret (.ok ())) : BranchesPassed l p branches := by
  intro bi steps hget
  obtain ⟨c, hc, hruns⟩ := branch_runs h hget
  obtain rfl := hall c (List.mem_of_getElem? hc)
  cases branchRun_of_runs hruns (hw.mono (List.filter_subset_self l)) with
  | passed h => exact h.in_branch
  | going _ _ hfin => exact nomatch hfin

theorem branchFutures_alive : ∀ d ∈ branchFutures branches p 0, d.failed = false := by
  intro d hd
  obtain ⟨i, hget⟩ := List.mem_iff_getElem?.mp hd
  rw [branchFutures_getElem] at hget
  obtain ⟨steps, -, rfl⟩ := Option.map_eq_some_iff.mp hget
  rfl

/-- **The report of the first failure is the last thing the branches do.** -/
theorem branches_failed {e : RunError} (h : Branches (branchFutures branches p 0) l branches')
    (hw : Written l) (hfailed : branches'[bi]? = some (.ret (.error e))) :
    ∃ j, BranchFailed l p branches bi j e := by
  have hlt : bi < branches.length := by
    have hlt' := (List.getElem?_eq_some_iff.mp hfailed).1
    rw [h.length_eq] at hlt'
    rcases Nat.lt_or_ge bi branches.length with hlt | hge
    · exact hlt
    · have hnone := branchFutures_getElem branches p 0 bi
      rw [List.getElem?_eq_none hge, List.getElem?_eq_getElem hlt'] at hnone
      exact nomatch hnone
  have hget := List.getElem?_eq_getElem hlt
  obtain ⟨c, hc, hruns⟩ := branch_runs h hget
  obtain rfl := Option.some.inj (hfailed.symm.trans hc)
  obtain ⟨before, last, between, c, rfl, hbefore, hbetween, hstep⟩ :=
    h.last_failed hfailed branchFutures_alive
  obtain ⟨c', hc', hruns'⟩ := branch_runs hbefore hget
  obtain rfl := Option.some.inj (hbetween.symm.trans hc')
  -- the last step is one of this branch
  have hlast : recordAt (S := runner) (AtOrBelow (.branch bi :: p)) last = last := by
    have hwhole := hruns'.trans (.head hstep .refl)
    refine recordAt_self fun x hx => hwhole.within (branchFuture_stays _ p bi) x ?_
    exact List.mem_append_right _ (List.mem_append_left _ hx)
  have hsub : ∀ {l' : Record}, l' ⊆ before ++ last →
      Written (recordAt (S := runner) (AtOrBelow (.branch bi :: p)) l') :=
    fun hl' => hw.mono fun x hx => hl' (mem_recordAt.mp hx).1
  cases branchRun_of_runs hruns (hsub fun _ hx => hx) with
  | going _ _ hfin => exact nomatch hfin
  | @failed j step _ l hgetj hreached hended hreport =>
      have hunreported : ∀ x ∈ recordAt (S := runner) (AtOrBelow (.branch bi :: p)) before,
          reportsFailure (.branch bi :: p) x = false := by
        cases branchRun_of_runs hruns' (hsub (List.subset_append_left _ _)) with
        | going _ hunreported _ => exact hunreported
        | passed _ => exact nomatch hstep
        | failed _ _ _ _ => exact nomatch hstep
      refine ⟨j, ⟨_, step, hget, hgetj, hreached.in_branch,
        hended.congr (recordAt_recordAt fun _ hr => hr).symm⟩, ?_⟩
      rw [recordAt_append, hlast] at hreport
      rcases List.append_eq_append_iff.mp hreport with ⟨l', -, hlast'⟩ | ⟨l', hbefore', hreport'⟩
      · exact ⟨before ++ l', [], by rw [hlast', List.append_assoc], fun x hx => nomatch hx⟩
      · cases l' with
        | nil =>
            rw [List.nil_append] at hreport'
            exact ⟨before, [], by rw [← hreport'], fun x hx => nomatch hx⟩
        | cons x l' =>
            -- the report would have been there before
            obtain ⟨rfl, -⟩ := List.cons.inj hreport'
            have hno := hunreported _ (hbefore' ▸ List.mem_append_right _ List.mem_cons_self)
            rw [reportsFailure, decide_eq_true rfl, Bool.true_and] at hno
            exact absurd rfl (of_decide_eq_false hno)

/-- What is recorded at the path of the step itself is in no branch. -/
theorem outside_nothing (h : ∀ x ∈ l, x.place = p) (bi m : Nat) :
    recordAt (S := runner) (AtOrBelow (.step m :: .branch bi :: p)) l = [] :=
  recordAt_none fun x hx hat => own_untouched h (.branch bi) x hx ((atOrBelow_cons _ _).trans hat)

/-- A record with more of the step's own around it. -/
structure Around (p : Path) (l record : Record) : Prop where
  split : ∃ pre post, record = pre ++ l ++ post ∧ (∀ x ∈ pre, x.place = p) ∧
    ∀ x ∈ post, x.place = p

theorem Around.part (h : Around p l record) (bi m : Nat) :
    recordAt (S := runner) (AtOrBelow (.step m :: .branch bi :: p)) record =
      recordAt (AtOrBelow (.step m :: .branch bi :: p)) l := by
  obtain ⟨pre, post, rfl, hpre, hpost⟩ := h.split
  rw [recordAt_append, recordAt_append, outside_nothing hpre, outside_nothing hpost,
    List.nil_append, List.append_nil]

theorem BranchesReached.around (h : BranchesReached l p branches) (haround : Around p l record) :
    BranchesReached record p branches := by
  intro bi steps hget
  obtain ⟨j, hj⟩ := h bi steps hget
  exact ⟨j, hj.of_parts (haround.part bi)⟩

theorem BranchesPassed.around (h : BranchesPassed l p branches) (haround : Around p l record) :
    BranchesPassed record p branches :=
  fun bi steps hget => (h bi steps hget).of_parts (haround.part bi)

theorem BranchFailed.around {e : RunError} (h : BranchFailed l p branches bi j e)
    (haround : Around p l record) : BranchFailed record p branches bi j e := by
  obtain ⟨⟨steps, step, hget, hgetj, hreached, hended⟩, before, after, hlast, hafter⟩ := h
  refine ⟨⟨steps, step, hget, hgetj, hreached.of_parts (haround.part bi),
    hended.of_parts (haround.part bi j)⟩, ?_⟩
  obtain ⟨pre, post, rfl, -, hpost⟩ := haround.split
  refine ⟨pre ++ before, after ++ post, by rw [hlast]; simp, fun x hx => ?_⟩
  rcases List.mem_append.mp hx with hx | hx
  · exact hafter x hx
  · exact hpost x hx

theorem ParallelRun.around (h : ParallelRun p branches l rest) (haround : Around p l record) :
    ParallelRun p branches record rest := by
  cases h with
  | passed h => exact .passed (h.around haround)
  | failed hreached h => exact .failed (hreached.around haround) (h.around haround)
  | going hreached hfin => exact .going (hreached.around haround) hfin

/-- When all branches have come to an end, the step ends as they did. -/
theorem emitAborted_result {k : Run} {n : Nat} {result r : Except RunError Unit}
    (hk : ∀ l, k.Runs l (.ret r) → Written l → r = result)
    (h : (emitAborted p k bi n).Runs l (.ret r)) (hw : Written l) : r = result := by
  induction n generalizing bi l with
  | zero => exact hk l h hw
  | succ n ih =>
      rcases Runs.ask h with ⟨-, heq⟩ | ⟨flags, l, rfl, hrest⟩
      · exact nomatch heq
      have hw' : Written l := hw.mono (List.subset_cons_self _ _)
      change Runs (if _ then _ else _) l _ at hrest
      split at hrest
      · rcases Runs.ask hrest with ⟨-, heq⟩ | ⟨b, l, rfl, hafter⟩
        · exact nomatch heq
        · exact ih hafter (hw'.mono (List.subset_cons_self _ _))
      · exact ih hrest hw'

theorem completeParallel_result {n : Nat} {result r : Except RunError Unit}
    (h : (completeParallel p n result).Runs l (.ret r)) (hw : Written l) : r = result := by
  have hend : ∀ l, (emit p (parallelCompleted result) (.ret result)).Runs l (.ret r) →
      Written l → r = result := by
    intro l hruns hwritten
    obtain ⟨l, -, hret⟩ := emit_finished hruns rfl hwritten
    exact Future.ret.inj (Runs.ret hret).2
  cases result with
  | ok a => exact hend l h hw
  | error e => exact emitAborted_result hend h hw

/-- **A parallel step ends with the first failure**, if the trace can be written. -/
theorem parallelRun_of_runs (h : (emit p (parallelStarted branches.length) (.join p
    (branchFutures branches p 0) (completeParallel p branches.length))).Runs record rest)
    (hw : Written record) : ParallelRun p branches record rest := by
  rcases emit_runs h with ⟨rfl, hfin⟩ | ⟨e, rfl, -⟩ | ⟨l, rfl, hjoin⟩
  · exact .going (branches_reached .refl hw) hfin
  · exact nomatch hw.ok List.mem_cons_self
  have hstarted : ∀ x ∈ [Label.did (S := runner) ⟨p, .emit (parallelStarted branches.length)⟩
      (.ok ())], x.place = p := List.forall_mem_singleton.mpr rfl
  have hw' : Written l := hw.mono (List.subset_cons_self _ _)
  rcases Runs.join hjoin with ⟨branches', hb, rfl⟩ | ⟨branches', l₁, l₂, rfl, hb, hend⟩
  · exact .going ((branches_reached hb hw').around ⟨_, [], by rw [List.append_nil]; rfl, hstarted,
      fun x hx => nomatch hx⟩) rfl
  have hw₁ : Written l₁ := hw'.mono (List.subset_append_left _ _)
  have haround : (∀ x ∈ l₂, x.place = p) → Around p l₁
      (.did ⟨p, .emit (parallelStarted branches.length)⟩ (.ok ()) :: (l₁ ++ l₂)) :=
    fun hplace => ⟨_, l₂, rfl, hstarted, hplace⟩
  cases hend with
  | returned hall hrest =>
      have hplace := hrest.within (completeParallel_stays (P := (· = p)) rfl)
      have hpassed := (branches_passed hb hw₁ hall).around (haround hplace)
      cases hfin : rest.finished with
      | false => exact .going (fun bi steps hget => ⟨_, hpassed bi steps hget⟩) hfin
      | true =>
          obtain ⟨r, rfl⟩ := exists_ret hfin
          obtain rfl := completeParallel_result hrest (hw'.mono (List.subset_append_right _ _))
          exact .passed hpassed
  | @aborted e l₂ _ hmem hrest =>
      have hplace : ∀ x ∈ drops p branches' ++ l₂, x.place = p := by
        intro x hx
        rcases List.mem_append.mp hx with hx | hx
        · obtain ⟨i, rfl⟩ := mem_drops hx
          rfl
        · exact hrest.within (completeParallel_stays (P := (· = p)) rfl) x hx
      have hreached := (branches_reached hb hw₁).around (haround hplace)
      cases hfin : rest.finished with
      | false => exact .going hreached hfin
      | true =>
          obtain ⟨r, rfl⟩ := exists_ret hfin
          obtain rfl := completeParallel_result hrest (hw'.mono fun x hx =>
            List.mem_append_right _ (List.mem_append_right _ hx))
          obtain ⟨bi, hget⟩ := List.mem_iff_getElem?.mp hmem
          obtain ⟨j, hj⟩ := branches_failed hb hw₁ hget
          exact .failed hreached (hj.around (haround hplace))

end

/-! ## The step around its execution -/

/-- How `run_step` closes a step that was executed with this result. -/
inductive StepCloses (p : Path) (idx : Nat) (record : Record) :
    Except RunError Unit → Except RunError Unit → Prop where
  | passed : StepCloses p idx record (.ok ()) (.ok ())
  | asserted (h : .did ⟨p, .emit (stepCompleted idx "assertion_failed")⟩ (.ok ()) ∈ record) :
      StepCloses p idx record (.ok ()) (.error .assertionFailure)
  | erred {e} : StepCloses p idx record (.error e) (.error e)

/-- What a step has recorded: its own entries, and in between those of its execution. -/
inductive StepParts (p : Path) (idx : Nat) (step : Runner.StepDef) (record : Record)
    (left : Run) : Prop where
  /-- It has not been executed, and will not be if its references do not resolve. -/
  | idle (hplace : ∀ x ∈ record, x.place = p)
      (hend : left.finished = true → (∃ e, left = .ret (.error e)) ∧ ∃ vars f,
        .did ⟨p, .snapshot step.substituted⟩ vars ∈ record ∧
          substituteInValue step.substituted vars = .error f)
  | executed {pre exec post vars resolved refs body} (hrecord : record = pre ++ exec ++ post)
      (hpre : ∀ x ∈ pre, x.place = p) (hpost : ∀ x ∈ post, x.place = p)
      (hsnapshot : .did ⟨p, .snapshot step.substituted⟩ vars ∈ pre)
      (hsub : substituteInValue step.substituted vars = .ok (resolved, refs))
      (hexec : (Runner.executeStep step p resolved).Runs exec body)
      (hend : left.finished = true → ∃ result r, body = .ret result ∧ left = .ret r ∧
        StepCloses p idx record result r)

theorem completeStep_closes {p : Path} {idx : Nat} {step : Runner.StepDef}
    {result : Except RunError Unit} {tail : Record} {left : Run}
    (h : (completeStep p idx step result).Runs tail left) (hfin : left.finished = true)
    (hw : Written tail) : ∃ r, left = .ret r ∧ StepCloses p idx tail result r := by
  obtain ⟨passed, asserted, event, rfl, -, hends⟩ := completeStep_ends h hfin hw
  rcases hends with ⟨-, rfl, hleft⟩ | ⟨rfl, rfl, hleft⟩ | ⟨e, -, rfl, hleft⟩
  · exact ⟨_, hleft, .passed⟩
  · exact ⟨_, hleft, .asserted (List.mem_cons_of_mem _ (List.mem_append_right _
      (List.mem_singleton.mpr rfl)))⟩
  · exact ⟨_, hleft, .erred⟩

theorem StepCloses.mono {p : Path} {idx : Nat} {record record' : Record}
    {result r : Except RunError Unit} (h : StepCloses p idx record result r)
    (hsub : record ⊆ record') : StepCloses p idx record' result r := by
  cases h with
  | passed => exact .passed
  | asserted h => exact .asserted (hsub h)
  | erred => exact .erred

/-- **What a step has recorded**, if the trace can be written. -/
theorem stepParts_of_runs {q : Path} {idx : Nat} {step : Runner.StepDef} {record : Record}
    {left : Run} (h : (Runner.runStep q idx step).Runs record left) (hw : Written record) :
    StepParts (.step idx :: q) idx step record left := by
  have hbefore : ∀ {o s : List Emitted} {vars : VarStore} {refs : List (String × String)}
      {references : Record},
      Emits (.step idx :: q) (refs.map fun r => variableReferenced idx r.1 r.2) references →
      ∀ x ∈ header (.step idx :: q) idx step o s ++
        .did ⟨.step idx :: q, .snapshot step.substituted⟩ vars :: references,
          x.place = .step idx :: q :=
    fun hemits x hx => (before_framing (fun y hy =>
      references_framing hemits (List.prefix_refl _) hy) x hx).1
  cases stepRun_of_runs h with
  | starting hinitial hrest =>
      exact .idle (fun x hx => (header_framing (hinitial.subset hx)).1)
        fun hfin => absurd (hrest.symm.trans hfin) Bool.false_ne_true
  | unwritten => cases hw.ok (List.mem_cons_of_mem _ (List.mem_singleton.mpr rfl))
  | unresolved hsub =>
      exact .idle (fun x hx => (before_framing (List.forall_mem_nil _) x hx).1) fun _ =>
        ⟨⟨_, rfl⟩, _, _, List.mem_append_right _ (List.mem_singleton.mpr rfl), hsub⟩
  | referencing _ hinitial hemits hrest =>
      refine .idle (fun x hx => (before_framing (fun y hy =>
        references_framing hemits hinitial hy) x hx).1) ?_
      exact fun hfin => absurd (hrest.symm.trans hfin) Bool.false_ne_true
  | @executing o s vars resolved refs references exec body _ hsub hemits hruns hrest =>
      have hsplit : header (.step idx :: q) idx step o s ++ .did ⟨.step idx :: q,
          .snapshot step.substituted⟩ vars :: (references ++ exec) =
          (header (.step idx :: q) idx step o s ++ .did ⟨.step idx :: q,
            .snapshot step.substituted⟩ vars :: references) ++ exec ++ [] := by simp
      exact .executed hsplit (hbefore hemits) (List.forall_mem_nil _)
        (List.mem_append_right _ List.mem_cons_self) hsub hruns
        fun hfin => absurd (hrest.symm.trans hfin) Bool.false_ne_true
  | @closing o s vars resolved refs references exec result passed tail _ hsub hemits hruns htail =>
      have hsplit : header (.step idx :: q) idx step o s ++ .did ⟨.step idx :: q,
          .snapshot step.substituted⟩ vars :: (references ++ exec ++
            .did ⟨.step idx :: q, .drain (.closing step)⟩ passed :: tail) =
          (header (.step idx :: q) idx step o s ++ .did ⟨.step idx :: q,
            .snapshot step.substituted⟩ vars :: references) ++ exec ++
              .did ⟨.step idx :: q, .drain (.closing step)⟩ passed :: tail := by simp
      have hclosing := List.subset_append_right (header (.step idx :: q) idx step o s ++
        .did ⟨.step idx :: q, .snapshot step.substituted⟩ vars :: references ++ exec)
          (.did ⟨.step idx :: q, .drain (.closing step)⟩ passed :: tail)
      rw [← hsplit] at hclosing
      refine .executed hsplit (hbefore hemits)
        (fun x hx => (htail.within completeStep_framing x hx).1)
        (List.mem_append_right _ List.mem_cons_self) hsub hruns fun hfin => ?_
      obtain ⟨r, hleft, hcloses⟩ := completeStep_closes htail hfin (hw.mono hclosing)
      exact ⟨result, r, rfl, hleft, hcloses.mono hclosing⟩

/-! ## Parallel steps -/

/-- How a `parallel` step can have ended, or where it stands. -/
inductive ParallelOutcome (record : Record) (p : Path) (branches : List (List Runner.StepDef))
    (left : Run) : Prop where
  /-- No branch has been started, and none will be once the step has ended. -/
  | unstarted (h : ∀ bi, Untouched record (.branch bi :: p))
      (hend : left.finished = true → ∃ e, left = .ret (.error e))
  /-- No step has failed: only the assertions of the `parallel` step itself can. -/
  | passed (h : BranchesPassed record p branches)
      (hend : left.finished = true →
        left = .ret (.ok ()) ∨ left = .ret (.error .assertionFailure))
  | failed {bi j e} (hreached : BranchesReached record p branches)
      (h : BranchFailed record p branches bi j e)
      (hend : left.finished = true → left = .ret (.error e))
  | underway (hreached : BranchesReached record p branches) (hfin : left.finished = false)

section

variable {files : Files} {scenario : Scenario} {events : List OwnEvent} {vars : VarStore}
  {p q : Path} {idx : Nat} {common : Common} {branches : List (List Runner.StepDef)}
  {record exec : Record} {resolved : Value} {left body rest : Run}

theorem execute_parallel
    (h : (Runner.executeStep (.parallel common branches) p resolved).Runs exec body)
    (hw : Written exec) :
    (exec = [] ∧ ∃ e, body = .ret (.error e)) ∨ ParallelRun p branches exec body := by
  rw [Runner.executeStep] at h
  rcases hparams : StepParams.fromValue resolved with _ | params
  · simp only [hparams] at h
    obtain ⟨rfl, rfl⟩ := Runs.ret h
    exact Or.inl ⟨rfl, _, rfl⟩
  · simp only [hparams] at h
    exact Or.inr (parallelRun_of_runs h hw)

/-- An execution of a `parallel` step, if the trace can be written. -/
theorem parallelOutcome_of_runs (hw : Written record)
    (h : (Runner.runStep q idx (.parallel common branches)).Runs record left) :
    ParallelOutcome record (.step idx :: q) branches left := by
  cases stepParts_of_runs h hw with
  | idle hplace hend =>
      exact .unstarted (fun bi => own_untouched hplace (.branch bi)) fun hfin => (hend hfin).1
  | @executed pre exec post vars resolved refs body hrecord hpre hpost _ _ hexec hend =>
      have hwritten : Written exec := hw.mono fun x hx => by
        rw [hrecord]
        exact List.mem_append_left _ (List.mem_append_right _ hx)
      rcases execute_parallel hexec hwritten with ⟨rfl, e, rfl⟩ | hparallel
      · refine .unstarted (fun bi => own_untouched (fun x hx => ?_) (.branch bi)) fun hfin => ?_
        · rw [hrecord, List.append_nil] at hx
          rcases List.mem_append.mp hx with hx | hx
          · exact hpre x hx
          · exact hpost x hx
        · obtain ⟨result, r, heq, hleft, hcloses⟩ := hend hfin
          obtain rfl := Future.ret.inj heq
          cases hcloses with
          | erred => exact ⟨e, hleft⟩
      · cases hparallel.around ⟨pre, post, hrecord, hpre, hpost⟩ with
        | passed h =>
            refine .passed h fun hfin => ?_
            obtain ⟨result, r, heq, hleft, hcloses⟩ := hend hfin
            obtain rfl := Future.ret.inj heq
            cases hcloses with
            | passed => exact Or.inl hleft
            | asserted _ => exact Or.inr hleft
        | failed hreached h =>
            refine .failed hreached h fun hfin => ?_
            obtain ⟨result, r, heq, hleft, hcloses⟩ := hend hfin
            obtain rfl := Future.ret.inj heq
            cases hcloses with
            | erred => exact hleft
        | going hreached hopen =>
            refine .underway hreached (Bool.eq_false_iff.mpr fun hfin => ?_)
            obtain ⟨result, r, rfl, -, -⟩ := hend hfin
            cases hopen

/-- **A parallel step fails fast**, whatever the order in which its branches go on. Each branch
has come as far as its steps have ended well. If a step fails, then the report of it is the last
thing that any branch does, and the `parallel` step ends with its error; otherwise every step of
every branch ends well. -/
theorem parallel_failFast (hrun : ScenarioRun files scenario events vars record rest)
    (hw : Written record)
    (hstep : Locates scenario.steps root q idx (.parallel common branches))
    (hsome : ∃ x ∈ record, AtOrBelow (.step idx :: q) x.place) :
    ∃ left, (Runner.runStep q idx (.parallel common branches)).Runs
        (recordAt (AtOrBelow (.step idx :: q)) record) left ∧
      (rest.finished = true →
        left.finished = true ∨ Dropped (Contains (.step idx :: q)) record) ∧
      ParallelOutcome (recordAt (AtOrBelow (.step idx :: q)) record) (.step idx :: q) branches
        left := by
  obtain ⟨left, hruns, hend⟩ := local_run hrun.runs hstep hsome
  exact ⟨left, hruns, hend,
    parallelOutcome_of_runs (hw.mono fun x hx => (mem_recordAt.mp hx).1) hruns⟩

end

/-- Two branches that take turns, and the first of them fails. -/
theorem takingTurns_failFast :
    ∃ left, (Runner.runStep root 0 besides).Runs
        (recordAt (AtOrBelow (.step 0 :: root)) takingTurns) left ∧
      ParallelOutcome (recordAt (AtOrBelow (.step 0 :: root)) takingTurns) (.step 0 :: root)
        [[expectant], [sleeping none]] left := by
  have hrun : ScenarioRun noFiles sideBySide [] (fun _ => none) takingTurns _ :=
    simulated_run (by decide +kernel)
  have hw : Written takingTurns := written_of_length (by decide +kernel)
  have hany : takingTurns.any (fun x => decide (AtOrBelow (.step 0 :: root) x.place)) = true := by
    decide +kernel
  obtain ⟨x, hx, hat⟩ := List.any_eq_true.mp hany
  obtain ⟨left, hruns, -, houtcome⟩ :=
    parallel_failFast hrun hw (.here rfl) ⟨x, hx, of_decide_eq_true hat⟩
  exact ⟨left, hruns, houtcome⟩

end ConformanceHarness.Proof
