import ConformanceHarness.Lib.Parts
import ConformanceHarness.Runner.RunScenario

/-!
# Executions

Every execution of a step is a run of `run_step` of its own: what a scenario records at the
path of an execution and below it is what `run_step` would record there alone, whatever
happens next to it. `local_run` says so, and the theorems about runs start from it.

A path says where an execution stands in the tree of steps, so the proof goes along the
tree: a step is in one iteration of a `repeat`, or in one branch of a `parallel`, and the
other iterations and branches stay away from its path.
-/

namespace ConformanceHarness.Proof

open Lib Future Runner

/-! ## Paths -/

/-- `r` is the path `p`, or a path below it. -/
abbrev AtOrBelow (p r : Path) : Prop := p <:+ r

theorem AtOrBelow.trans {p q r : Path} (h : AtOrBelow p q) (h' : AtOrBelow q r) : AtOrBelow p r :=
  List.IsSuffix.trans h h'

theorem atOrBelow_of_eq {p q : Path} (h : q = p) : AtOrBelow p q := h ▸ List.suffix_refl _

theorem atOrBelow_cons (s : Seg) (p : Path) : AtOrBelow p (s :: p) := List.suffix_cons s p

/-- Two paths above the same one are above one another. -/
theorem atOrBelow_of_length {p q r : Path} (hp : AtOrBelow p r) (hq : AtOrBelow q r)
    (hlength : p.length ≤ q.length) : AtOrBelow p q :=
  List.suffix_of_suffix_length_le hp hq hlength

theorem seg_unique {s s' : Seg} {p r : Path} (h : AtOrBelow (s :: p) r)
    (h' : AtOrBelow (s' :: p) r) : s = s' := by
  have heq : s :: p = s' :: p :=
    (atOrBelow_of_length h h' (Nat.le_refl _)).eq_of_length rfl
  exact (List.cons.inj heq).1

theorem not_atOrBelow_self (s : Seg) (p : Path) : ¬ AtOrBelow (s :: p) p := by
  intro h
  have hlength := h.length_le
  rw [List.length_cons] at hlength
  omega

/-! ## Where the futures are -/

/-- Every request of the future is at a path with `P`. -/
abbrev Stays (P : Path → Prop) (t : Run) : Prop := At (S := runner) P t

section Stays

variable {P : Path → Prop} {p : Path} {k : Run}

theorem emit_stays {event : TraceEvent} (hp : P p) (hk : Stays P k) :
    Stays P (emit p event k) := by
  refine .ask hp ?_
  rintro (_ | _)
  · exact .ret
  · exact hk

theorem emitIgnored_stays {events : List TraceEvent} (hp : P p) (hk : Stays P k) :
    Stays P (emitIgnored p events k) := by
  induction events with
  | nil => exact hk
  | cons event rest ih => exact .ask hp fun _ => ih

theorem play_stays {result : Except RunError Unit} {moves : List Move} (hp : P p) :
    Stays P (play p result moves) := by
  induction moves with
  | nil => exact .ret
  | cons move rest ih =>
      cases move with
      | emit event required =>
          refine .ask hp ?_
          rintro (_ | _)
          · cases required with
            | true => exact .ret
            | false => exact ih
          · exact ih
      | setVariable name v => exact .ask hp fun _ => ih

theorem completeStep_stays {idx : Nat} {step : Runner.StepDef} {result : Except RunError Unit}
    (hp : P p) : Stays P (completeStep p idx step result) := by
  refine .ask hp fun events => emitIgnored_stays hp ?_
  cases result with
  | error e => exact emitIgnored_stays hp .ret
  | ok a =>
      show Stays P (if _ then _ else _)
      split
      · exact emit_stays hp .ret
      · exact emit_stays hp .ret

theorem emitAborted_stays {n : Nat} (hp : P p) (hk : Stays P k) :
    ∀ {bi : Nat}, Stays P (emitAborted p k bi n) := by
  induction n with
  | zero => exact hk
  | succ n ih =>
      intro bi
      refine .ask hp fun flags => ?_
      show Stays P (if _ then _ else _)
      split
      · exact emitIgnored_stays hp ih
      · exact ih

theorem completeParallel_stays {branchCount : Nat} {result : Except RunError Unit} (hp : P p) :
    Stays P (completeParallel p branchCount result) := by
  cases result with
  | ok a => exact emit_stays hp .ret
  | error e => exact emitAborted_stays hp (emit_stays hp .ret)

theorem runStepWith_stays {q : Path} {idx : Nat} {step : Runner.StepDef}
    {execute : Path → Value → Run}
    (hp : P (.step idx :: q)) (h : ∀ resolved, Stays P (execute (.step idx :: q) resolved)) :
    Stays P (runStepWith q idx step execute) := by
  refine .ask hp fun _ => emit_stays hp (.ask hp fun _ => .ask hp fun vars => ?_)
  split
  · exact .ret
  · exact emitIgnored_stays hp ((h _).bind fun _ => completeStep_stays hp)

end Stays

mutual

/-- An execution stays at its path and below it. -/
theorem executeStep_stays (step : Runner.StepDef) (p : Path) (resolved : Value) :
    Stays (AtOrBelow p) (Runner.executeStep step p resolved) := by
  have hp : AtOrBelow p p := List.suffix_refl p
  rw [Runner.executeStep]
  rcases StepParams.fromValue resolved with _ | params
  · exact .ret
  · cases step with
    | leaf kind common => exact .ask hp fun _ => play_stays hp
    | «repeat» common body =>
        rcases times resolved with _ | n
        · exact .ret
        · refine At.loop fun i _ => emit_stays hp (At.bind ?_ ?_)
          · exact (runBody_stays body (.iteration i :: p) 0).imp fun r ⟨j, _, h⟩ =>
              (atOrBelow_cons (.iteration i) p).trans ((atOrBelow_cons (.step j) _).trans h)
          · rintro (_ | _)
            · exact emit_stays hp .ret
            · exact emit_stays hp .ret
    | malformedRepeat common error =>
        rcases times resolved with _ | n
        · exact .ret
        · exact .ret
    | parallel common branches =>
        refine emit_stays hp (.join hp ?_ ?_)
        · intro c hc
          obtain ⟨i, hget⟩ := List.mem_iff_getElem?.mp hc
          exact (branchFutures_stays branches p 0 i c hget).imp fun r h =>
            (atOrBelow_cons _ p).trans h
        · exact fun result => completeParallel_stays hp
    | malformedParallel common error => exact .ret

/-- A body stays at its steps, from the first on. -/
theorem runBody_stays (body : List Runner.StepDef) (q : Path) (idx : Nat) :
    Stays (fun r => ∃ j, idx ≤ j ∧ AtOrBelow (.step j :: q) r) (runBody body q idx) := by
  cases body with
  | nil => exact .ret
  | cons step rest =>
      have hstep : Stays (AtOrBelow (.step idx :: q))
        (runStepWith q idx step (Runner.executeStep step)) :=
        runStepWith_stays (List.suffix_refl _) fun resolved =>
          executeStep_stays step (.step idx :: q) resolved
      rw [runBody]
      refine (hstep.imp fun r h => ⟨idx, Nat.le_refl idx, h⟩).andThen ?_
      exact (runBody_stays rest q (idx + 1)).imp fun r ⟨j, hj, h⟩ => ⟨j, by omega, h⟩

/-- So does a branch, which has requests of its own, too. -/
theorem runBranch_stays (steps : List Runner.StepDef) (q : Path) (bi si : Nat) :
    Stays (fun r => r = q ∨ ∃ j, si ≤ j ∧ AtOrBelow (.step j :: q) r)
      (runBranch steps q bi si) := by
  cases steps with
  | nil => exact .ask (Or.inl rfl) fun _ => emit_stays (Or.inl rfl) .ret
  | cons step rest =>
      have hstep : Stays (AtOrBelow (.step si :: q))
        (runStepWith q si step (Runner.executeStep step)) :=
        runStepWith_stays (List.suffix_refl _) fun resolved =>
          executeStep_stays step (.step si :: q) resolved
      rw [runBranch]
      refine .ask (Or.inl rfl) fun _ => At.bind ?_ ?_
      · exact hstep.imp fun r h => Or.inr ⟨si, Nat.le_refl si, h⟩
      · rintro (_ | _)
        · exact .ask (Or.inl rfl) fun _ => emitIgnored_stays (Or.inl rfl) .ret
        · exact (runBranch_stays rest q bi (si + 1)).imp fun r h =>
            h.imp_right fun ⟨j, hj, hr⟩ => ⟨j, by omega, hr⟩

/-- Each branch stays below its own number. -/
theorem branchFutures_stays (branches : List (List Runner.StepDef)) (p : Path) (bi i : Nat)
    (c : Run)
    (h : (branchFutures branches p bi)[i]? = some c) :
    Stays (AtOrBelow (.branch (bi + i) :: p)) c := by
  cases branches with
  | nil => exact nomatch h
  | cons steps rest =>
      rw [branchFutures] at h
      cases i with
      | zero =>
          obtain rfl := Option.some.inj h
          have hself : AtOrBelow (.branch bi :: p) (.branch bi :: p) := List.suffix_refl _
          refine emit_stays hself ((runBranch_stays steps (.branch bi :: p) bi 0).imp ?_)
          rintro r (rfl | ⟨j, _, hr⟩)
          · exact hself
          · exact (atOrBelow_cons _ _).trans hr
      | succ i =>
          have hrest := branchFutures_stays rest p (bi + 1) i c h
          rwa [show bi + 1 + i = bi + (i + 1) by omega] at hrest

end

/-! ## Where the steps are -/

/-- From the steps that are run at `q₀`, the path leads to the step of index `idx` at `q`, through
iterations and branches. -/
inductive Locates : List Runner.StepDef → Path → Path → Nat → Runner.StepDef → Prop where
  | here {steps q idx step} (hget : steps[idx]? = some step) : Locates steps q q idx step
  | iteration {steps q₀ j common body i q idx step} (hget : steps[j]? = some (.repeat common body))
      (h : Locates body (.iteration i :: .step j :: q₀) q idx step) : Locates steps q₀ q idx step
  | branch {steps q₀ j common branches bi nested q idx step}
      (hget : steps[j]? = some (.parallel common branches)) (hbranch : branches[bi]? = some nested)
      (h : Locates nested (.branch bi :: .step j :: q₀) q idx step) : Locates steps q₀ q idx step

theorem Locates.atOrBelow {steps : List Runner.StepDef} {q₀ q : Path} {idx : Nat}
    {step : Runner.StepDef}
    (h : Locates steps q₀ q idx step) : AtOrBelow q₀ q := by
  induction h with
  | here _ => exact List.suffix_refl _
  | iteration _ _ ih => exact ((atOrBelow_cons _ _).trans (atOrBelow_cons _ _)).trans ih
  | branch _ _ _ ih => exact ((atOrBelow_cons _ _).trans (atOrBelow_cons _ _)).trans ih

/-! ## Executions as parts -/

/-- The branches that have the execution at `r` in them. -/
def Contains (r : Path) (p : Path) (bi : Nat) : Prop := AtOrBelow (.branch bi :: p) r

/-- At the path `r` and below, the future does what `u` does. -/
abbrev PartAt (r : Path) (u t : Run) : Prop := Part (S := runner) (AtOrBelow r) (Contains r) u t

theorem away_of_ne {s s' : Seg} {p r x : Path} (hne : s ≠ s') (hr : AtOrBelow (s :: p) r)
    (hx : AtOrBelow (s' :: p) x) : ¬ AtOrBelow r x := fun h => hne (seg_unique (hr.trans h) hx)

theorem not_above {s : Seg} {p r : Path} (hr : AtOrBelow (s :: p) r) : ¬ AtOrBelow r p :=
  fun h => not_atOrBelow_self s p (hr.trans h)

theorem runStep_stays {q : Path} {idx : Nat} {step : Runner.StepDef} :
    Stays (AtOrBelow (.step idx :: q)) (Runner.runStep q idx step) :=
  runStepWith_stays (List.suffix_refl _) fun resolved => executeStep_stays step _ resolved

theorem branchFutures_getElem (branches : List (List Runner.StepDef)) (p : Path) (b₀ i : Nat) :
    (branchFutures branches p b₀)[i]? = branches[i]?.map fun steps =>
      emit (.branch (b₀ + i) :: p) (branchStarted (b₀ + i))
        (runBranch steps (.branch (b₀ + i) :: p) (b₀ + i) 0) := by
  induction branches generalizing b₀ i with
  | nil =>
      rw [branchFutures]
      rfl
  | cons steps rest ih =>
      rw [branchFutures]
      cases i with
      | zero => rfl
      | succ i =>
          rw [List.getElem?_cons_succ, List.getElem?_cons_succ, ih,
            show b₀ + 1 + i = b₀ + (i + 1) by omega]

section

variable {p q₀ r : Path} {u k : Run} {step : Runner.StepDef}

theorem partAt_emit {event : TraceEvent} (haway : ¬ AtOrBelow r p) (h : PartAt r u k) :
    PartAt r u (emit p event k) := by
  refine Part.ask haway ?_
  rintro (_ | _)
  · exact .of_away .ret
  · exact h

theorem partAt_emitIgnored {events : List TraceEvent} (haway : ¬ AtOrBelow r p) (h : PartAt r u k) :
    PartAt r u (emitIgnored p events k) := by
  induction events with
  | nil => exact h
  | cons event rest ih => exact Part.ask haway fun _ => ih

/-- A part of what a step does is a part of its `run_step`. -/
theorem partAt_runStep {j : Nat} (haway : ¬ AtOrBelow r (.step j :: q₀))
    (h : ∀ resolved, PartAt r u (Runner.executeStep step (.step j :: q₀) resolved)) :
    PartAt r u (Runner.runStep q₀ j step) := by
  refine Part.ask haway fun _ => partAt_emit haway ?_
  refine Part.ask haway fun _ => Part.ask haway fun vars => ?_
  split
  · exact .of_away .ret
  · exact partAt_emitIgnored haway ((h _).bind fun _ => completeStep_stays haway)

/-- A part of one of the steps of a body, which starts at `i`. -/
theorem partAt_runBody {steps : List Runner.StepDef} {i m : Nat} (hget : steps[m]? = some step)
    (hr : AtOrBelow (.step (i + m) :: q₀) r) (h : PartAt r u (Runner.runStep q₀ (i + m) step)) :
    PartAt r u (runBody steps q₀ i) := by
  induction steps generalizing i m with
  | nil => exact nomatch hget
  | cons first rest ih =>
      rw [runBody]
      cases m with
      | zero =>
          obtain rfl := Option.some.inj hget
          refine Part.andThen h ((runBody_stays rest q₀ (i + 1)).imp ?_)
          rintro x ⟨j, hj, hx⟩
          refine away_of_ne (fun heq => ?_) hr hx
          have hij := Seg.step.inj heq
          omega
      | succ m =>
          refine Part.andThen_after (runStep_stays.imp fun x hx => ?_) ?_
          · refine away_of_ne (fun heq => ?_) hr hx
            have hij := Seg.step.inj heq
            omega
          · rw [show i + (m + 1) = i + 1 + m by omega] at hr h
            exact ih hget hr h

theorem partAt_runBranch {steps : List Runner.StepDef} {bi i m : Nat} (hget : steps[m]? = some step)
    (hr : AtOrBelow (.step (i + m) :: q₀) r) (h : PartAt r u (Runner.runStep q₀ (i + m) step)) :
    PartAt r u (runBranch steps q₀ bi i) := by
  have haway : ¬ AtOrBelow r q₀ := not_above hr
  induction steps generalizing i m with
  | nil => exact nomatch hget
  | cons first rest ih =>
      rw [runBranch]
      have hfailed : ∀ e, Stays (fun x => ¬ AtOrBelow r x) (.ask ⟨q₀, .storeFailed⟩ fun _ =>
          emitIgnored q₀ [branchFailed bi i e] (fail e)) :=
        fun e => .ask haway fun _ => emitIgnored_stays haway .ret
      refine Part.ask haway fun _ => ?_
      cases m with
      | zero =>
          obtain rfl := Option.some.inj hget
          refine Future.Part.bind h ?_
          rintro (e | _)
          · exact hfailed e
          · refine (runBranch_stays rest q₀ bi (i + 1)).imp ?_
            rintro x (rfl | ⟨j, hj, hx⟩)
            · exact haway
            · refine away_of_ne (fun heq => ?_) hr hx
              have hij := Seg.step.inj heq
              omega
      | succ m =>
          refine Part.bind_after (runStep_stays.imp fun x hx => ?_) ?_
          · refine away_of_ne (fun heq => ?_) hr hx
            have hij := Seg.step.inj heq
            omega
          · rintro (e | _)
            · exact .of_away (hfailed e)
            · rw [show i + (m + 1) = i + 1 + m by omega] at hr h
              exact ih hget hr h

/-- A part of one iteration is a part of the `repeat` step. -/
theorem partAt_repeat {common : Common} {body : List Runner.StepDef} {i : Nat} {resolved : Value}
    (hr : AtOrBelow (.iteration i :: p) r) (h : PartAt r u (runBody body (.iteration i :: p) 0)) :
    PartAt r u (Runner.executeStep (.repeat common body) p resolved) := by
  have haway : ¬ AtOrBelow r p := not_above hr
  have hcompleted : ∀ i, Stays (fun x => ¬ AtOrBelow r x)
      (emit p (iterationCompleted i) (.ret (.ok ()))) := fun i => emit_stays haway .ret
  have herred : ∀ i e, Stays (fun x => ¬ AtOrBelow r x) (emit p (iterationErred i e) (fail e)) :=
    fun i e => emit_stays haway .ret
  rw [Runner.executeStep]
  rcases StepParams.fromValue resolved with _ | params
  · exact .of_away .ret
  · rcases times resolved with e | n
    · exact .of_away .ret
    · refine Part.loop (m := i) (partAt_emit haway (Future.Part.bind h ?_)) ?_
      · rintro (e | _)
        · exact herred i e
        · exact hcompleted i
      intro j hj
      refine emit_stays haway (At.bind ?_ ?_)
      swap
      · rintro (e | _)
        · exact herred j e
        · exact hcompleted j
      refine (runBody_stays body (.iteration j :: p) 0).imp ?_
      rintro x ⟨m, -, hx⟩
      exact away_of_ne (fun heq => hj (Seg.iteration.inj heq).symm) hr
        ((atOrBelow_cons _ _).trans hx)

/-- A part of one branch is a part of the `parallel` step. -/
theorem partAt_parallel {common : Common} {branches : List (List Runner.StepDef)} {bi : Nat}
    {steps : List Runner.StepDef} {resolved : Value} (hbranch : branches[bi]? = some steps)
    (hr : AtOrBelow (.branch bi :: p) r) (hstrict : ¬ AtOrBelow r (.branch bi :: p))
    (h : PartAt r u (runBranch steps (.branch bi :: p) bi 0)) :
    PartAt r u (Runner.executeStep (.parallel common branches) p resolved) := by
  have haway : ¬ AtOrBelow r p := not_above hr
  have hstays : ∀ j d, (branchFutures branches p 0)[j]? = some d →
      Stays (AtOrBelow (.branch j :: p)) d := by
    intro j d hget
    have h := branchFutures_stays branches p 0 j d hget
    rwa [Nat.zero_add] at h
  have hget : (branchFutures branches p 0)[bi]? = some (emit (.branch bi :: p) (branchStarted bi)
      (runBranch steps (.branch bi :: p) bi 0)) := by
    rw [branchFutures_getElem, hbranch, Nat.zero_add]
    rfl
  rw [Runner.executeStep]
  rcases StepParams.fromValue resolved with _ | params
  · exact .of_away .ret
  · refine partAt_emit haway (Part.join (Q := AtOrBelow (.branch bi :: p)) (fun x hx => hr.trans hx)
      haway hget (hstays bi _ hget) ?_ (fun _ => completeParallel_stays haway) hr
      (partAt_emit hstrict h))
    intro j d hj hgetj
    exact (hstays j d hgetj).imp fun x hx hx' => hj (Seg.branch.inj (seg_unique hx hx'))

/-- The future has every one of these steps as a part, in their order at `q₀`. -/
def HasSteps (steps : List Runner.StepDef) (q₀ : Path) (t : Run) : Prop :=
  ∀ j step r u, steps[j]? = some step → AtOrBelow (.step j :: q₀) r →
    PartAt r u (Runner.runStep q₀ j step) → PartAt r u t

theorem runBody_hasSteps {steps : List Runner.StepDef} :
    HasSteps steps q₀ (runBody steps q₀ 0) := by
  intro j step r u hget hr h
  rw [← Nat.zero_add j] at hr h
  exact partAt_runBody hget hr h

theorem runBranch_hasSteps {steps : List Runner.StepDef} {bi : Nat} :
    HasSteps steps q₀ (runBranch steps q₀ bi 0) := by
  intro j step r u hget hr h
  rw [← Nat.zero_add j] at hr h
  exact partAt_runBranch hget hr h

/-- What runs the steps has every step that a path leads to as a part. -/
theorem Locates.part {steps : List Runner.StepDef} {q : Path} {idx : Nat} {t : Run}
    (h : Locates steps q₀ q idx step) (ht : HasSteps steps q₀ t) :
    PartAt (.step idx :: q) (Runner.runStep q idx step) t := by
  induction h generalizing t with
  | here hget => exact ht _ _ _ _ hget (List.suffix_refl _) (Part.refl runStep_stays)
  | @iteration steps q₀ j common body i q idx step hget h ih =>
      have hbelow : AtOrBelow (.iteration i :: .step j :: q₀) (.step idx :: q) :=
        h.atOrBelow.trans (atOrBelow_cons _ _)
      refine ht j _ _ _ hget ((atOrBelow_cons _ _).trans hbelow) ?_
      exact partAt_runStep (not_above hbelow) fun resolved =>
        partAt_repeat hbelow (ih runBody_hasSteps)
  | @branch steps q₀ j common branches bi nested q idx step hget hbranch h ih =>
      have hbelow : AtOrBelow (.branch bi :: .step j :: q₀) (.step idx :: q) :=
        h.atOrBelow.trans (atOrBelow_cons _ _)
      refine ht j _ _ _ hget ((atOrBelow_cons _ _).trans hbelow) ?_
      refine partAt_runStep (not_above hbelow) fun resolved =>
        partAt_parallel hbranch hbelow (fun hup => ?_) (ih runBranch_hasSteps)
      exact not_atOrBelow_self _ _ (hup.trans h.atOrBelow)

end

/-! ## Every execution is one of these -/

/-- A path above leads either right to the next segment, or past it. -/
theorem below_of_seg {s : Seg} {idx : Nat} {p q r : Path} (hp : AtOrBelow p q)
    (hq : AtOrBelow (.step idx :: q) r) (hr : AtOrBelow (s :: p) r) :
    (q = p ∧ s = .step idx) ∨ AtOrBelow (s :: p) q := by
  rcases Nat.lt_or_eq_of_le hp.length_le with hlt | heq
  · exact Or.inr (atOrBelow_of_length hr ((atOrBelow_cons _ _).trans hq) hlt)
  · obtain rfl := hp.eq_of_length heq
    exact Or.inl ⟨rfl, seg_unique hr hq⟩

/-- The path leads to this step from within a step at `p`. -/
def LocatesIn (step : Runner.StepDef) (p q : Path) (idx : Nat) (inner : Runner.StepDef) : Prop :=
  (∃ common body i, step = .repeat common body ∧ Locates body (.iteration i :: p) q idx inner) ∨
    ∃ common branches bi steps, step = .parallel common branches ∧ branches[bi]? = some steps ∧
      Locates steps (.branch bi :: p) q idx inner

/-- Every execution at or above `r` is one the steps lead to. -/
def Placed (steps : List Runner.StepDef) (q₀ r : Path) : Prop :=
  AtOrBelow q₀ r ∧ ∀ q idx, AtOrBelow q₀ q → AtOrBelow (.step idx :: q) r →
    ∃ step, Locates steps q₀ q idx step

/-- The same, within one step. -/
def PlacedIn (step : Runner.StepDef) (p r : Path) : Prop :=
  AtOrBelow p r ∧ ∀ q idx, AtOrBelow p q → AtOrBelow (.step idx :: q) r →
    ∃ inner, LocatesIn step p q idx inner

section

variable {steps : List Runner.StepDef} {step : Runner.StepDef} {p q₀ r : Path}

theorem placed_of_step {j : Nat} (hget : steps[j]? = some step)
    (h : PlacedIn step (.step j :: q₀) r) : Placed steps q₀ r := by
  refine ⟨(atOrBelow_cons _ _).trans h.1, ?_⟩
  intro q idx hq hr
  rcases below_of_seg hq hr h.1 with ⟨rfl, heq⟩ | hbelow
  · obtain rfl := Seg.step.inj heq
    exact ⟨step, .here hget⟩
  · obtain ⟨inner, ⟨common, body, i, rfl, hinner⟩ | ⟨common, branches, bi, nested, rfl, hbranch,
      hinner⟩⟩ := h.2 q idx hbelow hr
    · exact ⟨inner, .iteration hget hinner⟩
    · exact ⟨inner, .branch hget hbranch hinner⟩

theorem placed_self : Placed steps q₀ q₀ :=
  ⟨List.suffix_refl _, fun _ _ hq hr => absurd (hr.trans hq) (not_atOrBelow_self _ _)⟩

theorem placedIn_self : PlacedIn step p p :=
  ⟨List.suffix_refl _, fun _ _ hq hr => absurd (hr.trans hq) (not_atOrBelow_self _ _)⟩

theorem placedIn_iteration {common : Common} {i : Nat}
    (h : Placed steps (.iteration i :: p) r) : PlacedIn (.repeat common steps) p r := by
  refine ⟨(atOrBelow_cons _ _).trans h.1, ?_⟩
  intro q idx hq hr
  rcases below_of_seg hq hr h.1 with ⟨-, heq⟩ | hbelow
  · exact nomatch heq
  · obtain ⟨inner, hinner⟩ := h.2 q idx hbelow hr
    exact ⟨inner, Or.inl ⟨common, steps, i, rfl, hinner⟩⟩

theorem placedIn_branch {common : Common} {branches : List (List Runner.StepDef)} {bi : Nat}
    (hbranch : branches[bi]? = some steps) (h : Placed steps (.branch bi :: p) r) :
    PlacedIn (.parallel common branches) p r := by
  refine ⟨(atOrBelow_cons _ _).trans h.1, ?_⟩
  intro q idx hq hr
  rcases below_of_seg hq hr h.1 with ⟨-, heq⟩ | hbelow
  · exact nomatch heq
  · obtain ⟨inner, hinner⟩ := h.2 q idx hbelow hr
    exact ⟨inner, Or.inr ⟨common, branches, bi, steps, rfl, hbranch, hinner⟩⟩

end

mutual

theorem executeStep_placed (step : Runner.StepDef) (p : Path) (resolved : Value) :
    Stays (PlacedIn step p) (Runner.executeStep step p resolved) := by
  rw [Runner.executeStep]
  rcases StepParams.fromValue resolved with _ | params
  · exact .ret
  · cases step with
    | leaf kind common => exact .ask placedIn_self fun _ => play_stays placedIn_self
    | «repeat» common body =>
        rcases times resolved with _ | n
        · exact .ret
        · refine At.loop fun i _ => emit_stays placedIn_self (At.bind ?_ ?_)
          · exact (runBody_placed body body (.iteration i :: p) 0 fun m => by rw [Nat.zero_add]).imp
              fun r => placedIn_iteration
          · rintro (_ | _)
            · exact emit_stays placedIn_self .ret
            · exact emit_stays placedIn_self .ret
    | malformedRepeat common error =>
        rcases times resolved with _ | n
        · exact .ret
        · exact .ret
    | parallel common branches =>
        refine emit_stays placedIn_self (.join placedIn_self ?_ fun _ =>
          completeParallel_stays placedIn_self)
        intro c hc
        obtain ⟨i, hget⟩ := List.mem_iff_getElem?.mp hc
        obtain ⟨steps, hsteps, hstays⟩ := branchFutures_placed branches p 0 i c hget
        rw [Nat.zero_add] at hstays
        exact hstays.imp fun r => placedIn_branch hsteps
    | malformedParallel common error => exact .ret

theorem runBody_placed (body steps : List Runner.StepDef) (q₀ : Path) (i : Nat)
    (htail : ∀ m, body[m]? = steps[i + m]?) : Stays (Placed steps q₀) (runBody body q₀ i) := by
  cases body with
  | nil => exact .ret
  | cons step rest =>
      have hget : steps[i]? = some step := (htail 0).symm
      have hself : Placed steps q₀ (.step i :: q₀) := placed_of_step hget placedIn_self
      rw [runBody]
      refine At.andThen (runStepWith_stays hself fun resolved =>
        (executeStep_placed step (.step i :: q₀) resolved).imp fun r => placed_of_step hget) ?_
      refine runBody_placed rest steps q₀ (i + 1) fun m => ?_
      rw [show i + 1 + m = i + (m + 1) by omega]
      exact htail (m + 1)

theorem runBranch_placed (body steps : List Runner.StepDef) (q₀ : Path) (bi i : Nat)
    (htail : ∀ m, body[m]? = steps[i + m]?) : Stays (Placed steps q₀) (runBranch body q₀ bi i) := by
  cases body with
  | nil => exact .ask placed_self fun _ => emit_stays placed_self .ret
  | cons step rest =>
      have hget : steps[i]? = some step := (htail 0).symm
      have hself : Placed steps q₀ (.step i :: q₀) := placed_of_step hget placedIn_self
      rw [runBranch]
      refine .ask placed_self fun _ => At.bind (runStepWith_stays hself fun resolved =>
        (executeStep_placed step (.step i :: q₀) resolved).imp fun r => placed_of_step hget) ?_
      rintro (_ | _)
      · exact .ask placed_self fun _ => emitIgnored_stays placed_self .ret
      · refine runBranch_placed rest steps q₀ bi (i + 1) fun m => ?_
        rw [show i + 1 + m = i + (m + 1) by omega]
        exact htail (m + 1)

theorem branchFutures_placed (branches : List (List Runner.StepDef)) (p : Path) (bi i : Nat)
    (c : Run)
    (hget : (branchFutures branches p bi)[i]? = some c) :
    ∃ steps, branches[i]? = some steps ∧ Stays (Placed steps (.branch (bi + i) :: p)) c := by
  cases branches with
  | nil => exact nomatch hget
  | cons steps rest =>
      rw [branchFutures] at hget
      cases i with
      | zero =>
          obtain rfl := Option.some.inj hget
          refine ⟨steps, rfl, emit_stays placed_self ?_⟩
          exact runBranch_placed steps steps (.branch bi :: p) bi 0 fun m => by rw [Nat.zero_add]
      | succ i =>
          obtain ⟨nested, hnested, hstays⟩ := branchFutures_placed rest p (bi + 1) i c hget
          rw [show bi + 1 + i = bi + (i + 1) by omega] at hstays
          exact ⟨nested, hnested, hstays⟩

end

/-! ## From a scenario to its executions -/

theorem emitCompleted_stays {P : Path → Prop} {name outcome : String} {passed failed : Nat}
    {k : Run}
    (hp : P root) (hk : Stays P k) : Stays P (emitCompleted name passed failed outcome k) :=
  .ask hp fun _ => emitIgnored_stays hp hk

theorem runSteps_stays (name : String) (i : Nat) (steps : List Runner.StepDef) :
    Stays (fun r => r = root ∨ ∃ j, i ≤ j ∧ AtOrBelow (.step j :: root) r)
      (Runner.runSteps name i steps) := by
  induction steps generalizing i with
  | nil => exact emitCompleted_stays (Or.inl rfl) .ret
  | cons step rest ih =>
      refine At.bind ?_ ?_
      · exact runStep_stays.imp fun r hr => Or.inr ⟨i, Nat.le_refl i, hr⟩
      · rintro (_ | _)
        · exact .ask (Or.inl rfl) fun _ =>
            emitIgnored_stays (Or.inl rfl) (emitCompleted_stays (Or.inl rfl) .ret)
        · exact (ih (i + 1)).imp fun r hr => hr.imp_right fun ⟨j, hj, h⟩ => ⟨j, by omega, h⟩

theorem initPeers_stays {P : Path → Prop} {files : Files} {k : Run} {peers : List Peer}
    (hp : P root) (hk : Stays P k) : Stays P (initPeers files k peers) := by
  induction peers with
  | nil => exact hk
  | cons peer rest ih =>
      rw [initPeers]
      rcases peer.initialState files with f | ps
      · exact .ret
      · exact emit_stays hp ih

theorem runScenario_stays (files : Files) (scenario : Scenario) :
    Stays (AtOrBelow root) (runScenario files scenario) := by
  have hself : AtOrBelow root root := List.suffix_refl root
  have hsteps : Stays (AtOrBelow root) (Runner.runSteps scenario.name 0 scenario.steps) := by
    refine (runSteps_stays _ _ _).imp ?_
    rintro r (rfl | ⟨j, _, hr⟩)
    · exact hself
    · exact (atOrBelow_cons _ _).trans hr
  refine emit_stays hself ?_
  rcases scenario.network with _ | peers
  · exact hsteps
  · exact emit_stays hself (initPeers_stays hself hsteps)

/-- A scenario has its steps. -/
theorem runScenario_hasSteps (files : Files) (scenario : Scenario) :
    HasSteps scenario.steps root (runScenario files scenario) := by
  intro j step r u hget hr h
  have haway : ¬ AtOrBelow r root := not_above hr
  have hsteps : ∀ (steps : List Runner.StepDef) (i m : Nat), steps[m]? = some step → i + m = j →
      PartAt r u (Runner.runSteps scenario.name i steps) := by
    intro steps
    induction steps with
    | nil => exact fun i m hget _ => nomatch hget
    | cons first rest ih =>
        intro i m hgetm him
        rw [Runner.runSteps]
        have hfailed : ∀ e,
          Stays (fun x => ¬ AtOrBelow r x) (cleanup (emitCompleted scenario.name i 1
            (RunError.outcome e) (fail e))) :=
          fun e => .ask haway fun _ => emitIgnored_stays haway (emitCompleted_stays haway .ret)
        cases m with
        | zero =>
            obtain rfl := Option.some.inj hgetm
            obtain rfl : i = j := him
            refine Future.Part.bind h ?_
            rintro (e | _)
            · exact hfailed e
            · refine (runSteps_stays scenario.name (i + 1) rest).imp ?_
              rintro x (rfl | ⟨m, hm, hx⟩)
              · exact haway
              · refine away_of_ne (fun heq => ?_) hr hx
                have hij := Seg.step.inj heq
                omega
        | succ m =>
            refine Part.bind_after (runStep_stays.imp fun x hx => ?_) ?_
            · refine away_of_ne (fun heq => ?_) hr hx
              have hij := Seg.step.inj heq
              omega
            · rintro (e | _)
              · exact .of_away (hfailed e)
              · exact ih (i + 1) m hgetm (by omega)
  have hpeers : ∀ peers,
    PartAt r u (initPeers files (Runner.runSteps scenario.name 0 scenario.steps)
      peers) := by
    intro peers
    induction peers with
    | nil => exact hsteps _ 0 j hget (Nat.zero_add j)
    | cons peer rest ih =>
        rw [initPeers]
        rcases peer.initialState files with f | ps
        · exact .of_away .ret
        · exact partAt_emit haway ih
  refine partAt_emit haway ?_
  rcases scenario.network with _ | peers
  · exact hsteps _ 0 j hget (Nat.zero_add j)
  · exact partAt_emit haway (hpeers peers)

/-- Whatever a scenario records is in executions of its steps, or at its own path. -/
theorem runScenario_placed (files : Files) (scenario : Scenario) :
    Stays (Placed scenario.steps root) (runScenario files scenario) := by
  have hsteps : ∀ (body : List Runner.StepDef) (i : Nat), (∀ m, body[m]? = scenario.steps[i + m]?) →
      Stays (Placed scenario.steps root) (Runner.runSteps scenario.name i body) := by
    intro body
    induction body with
    | nil => exact fun i _ => emitCompleted_stays placed_self .ret
    | cons step rest ih =>
        intro i htail
        have hget : scenario.steps[i]? = some step := (htail 0).symm
        rw [Runner.runSteps]
        refine At.bind (runStepWith_stays (placed_of_step hget placedIn_self) fun resolved =>
          (executeStep_placed step _ resolved).imp fun r => placed_of_step hget) ?_
        rintro (_ | _)
        · exact .ask placed_self fun _ =>
            emitIgnored_stays placed_self (emitCompleted_stays placed_self .ret)
        · refine ih (i + 1) fun m => ?_
          rw [show i + 1 + m = i + (m + 1) by omega]
          exact htail (m + 1)
  have hall := hsteps scenario.steps 0 fun m => by rw [Nat.zero_add]
  refine emit_stays placed_self ?_
  rcases scenario.network with _ | peers
  · exact hall
  · exact emit_stays placed_self (initPeers_stays placed_self hall)

/-- Background workers never fail. -/
theorem workers_ok {events : List TraceEvent} {record : Record} {e : RunError}
    (h : (emitIgnored [.workers] events (.ret (.ok ()))).Runs record (.ret (.error e))) :
      False := by
  induction events generalizing record with
  | nil =>
      obtain ⟨-, heq⟩ := Runs.ret h
      exact nomatch heq
  | cons event rest ih =>
      rcases Runs.ask h with ⟨-, heq⟩ | ⟨b, record', rfl, hrest⟩
      · exact nomatch heq
      · exact ih hrest

theorem workers_stays {events : List OwnEvent} :
    Stays (fun r => ¬ AtOrBelow root r) (workers events) :=
  emitIgnored_stays (by decide) .ret

/-- What is recorded below the scenario is a run of the scenario on its own. -/
theorem scenario_run {files : Files} {scenario : Scenario} {events : List OwnEvent}
    {record : Record} {rest : Run} (h : (program files scenario events).Runs record rest) :
    ∃ rest', (runScenario files scenario).Runs (recordAt (AtOrBelow root) record) rest' ∧
      (rest.finished = true → rest'.finished = true) := by
  have hbranch : ∀ {l branches'},
      Branches [runScenario files scenario, workers events] l branches' →
      ∃ c w, branches' = [c, w] ∧
        (runScenario files scenario).Runs (recordAt (AtOrBelow root) l) c ∧
        ∀ e, w ≠ .ret (.error e) := by
    intro l branches' hb
    obtain ⟨c, hc, hrunsc⟩ := hb.branch (i := 0) rfl (runScenario_stays files scenario) (by
      intro j d hj hget
      match j, hj, hget with
      | 1, _, hget =>
          obtain rfl := Option.some.inj hget
          exact workers_stays)
    obtain ⟨w, hw, hrunsw⟩ := hb.branch (P := fun r => ¬ AtOrBelow root r) (i := 1) rfl
      workers_stays (by
      intro j d hj hget
      match j, hj, hget with
      | 1, hj, _ => exact absurd rfl hj
      | 0, _, hget =>
          obtain rfl := Option.some.inj hget
          exact (runScenario_stays files scenario).imp fun r hr h => h hr)
    have hlength := hb.length_eq
    match branches', hlength, hc, hw with
    | [c', w'], _, hc, hw =>
        obtain rfl := Option.some.inj hc
        obtain rfl := Option.some.inj hw
        refine ⟨c', w', rfl, hrunsc, fun e heq => ?_⟩
        rw [heq] at hrunsw
        exact workers_ok hrunsw
  rcases Runs.join h with ⟨branches', hb, rfl⟩ | ⟨branches', l₁, l₂, rfl, hb, hend⟩
  · obtain ⟨c, w, rfl, hruns, -⟩ := hbranch hb
    exact ⟨c, hruns, fun hfin => nomatch hfin⟩
  · obtain ⟨c, w, rfl, hruns, hw⟩ := hbranch hb
    have hl₂ : recordAt (S := runner) (AtOrBelow root) l₂ = [] := by
      refine recordAt_none ?_
      cases hend with
      | returned _ hrest =>
          obtain ⟨rfl, -⟩ := Runs.ret hrest
          exact fun x hx => nomatch hx
      | aborted _ hrest =>
          obtain ⟨rfl, -⟩ := Runs.ret hrest
          intro x hx
          rw [List.append_nil] at hx
          obtain ⟨i, rfl⟩ := mem_drops hx
          exact of_decide_eq_false rfl
    rw [recordAt_append, hl₂, List.append_nil]
    refine ⟨c, hruns, fun _ => ?_⟩
    cases hend with
    | returned hall _ =>
        rw [hall c List.mem_cons_self]
        rfl
    | aborted hmem _ =>
        rcases List.mem_cons.mp hmem with heq | hmem
        · rw [← heq]
          rfl
        · exact absurd (List.mem_singleton.mp hmem).symm (hw _)

section

variable {files : Files} {scenario : Scenario} {events : List OwnEvent} {record : Record}
  {rest : Run} {q : Path} {idx : Nat} {step : Runner.StepDef}

/-- The steps that are executed are those of the scenario. -/
theorem locates_of_mem (h : (program files scenario events).Runs record rest) {x : Label runner}
    (hx : x ∈ record) (hq : AtOrBelow root q) (hplace : AtOrBelow (.step idx :: q) x.place) :
    ∃ step, Locates scenario.steps root q idx step := by
  obtain ⟨rest₁, hruns, -⟩ := scenario_run h
  have hmem : x ∈ recordAt (AtOrBelow root) record :=
    mem_recordAt.mpr ⟨hx, hq.trans ((atOrBelow_cons _ _).trans hplace)⟩
  exact (hruns.within (runScenario_placed files scenario) x hmem).2 q idx hq hplace

/-- **Every execution is a run of its own.** What is recorded at its path and below is a run
of `run_step`, and it has ended when the scenario has, unless it was dropped. -/
theorem local_run (h : (program files scenario events).Runs record rest)
    (hstep : Locates scenario.steps root q idx step)
    (hsome : ∃ x ∈ record, AtOrBelow (.step idx :: q) x.place) :
    ∃ rest', (Runner.runStep q idx step).Runs (recordAt (AtOrBelow (.step idx :: q)) record) rest' ∧
      (rest.finished = true →
        rest'.finished = true ∨ Dropped (Contains (.step idx :: q)) record) := by
  obtain ⟨rest₁, hruns, hfin₁⟩ := scenario_run h
  have hbelow : AtOrBelow root (.step idx :: q) := hstep.atOrBelow.trans (atOrBelow_cons _ _)
  obtain ⟨x, hx, hplace⟩ := hsome
  have hmem : x ∈ recordAt (AtOrBelow root) record := mem_recordAt.mpr ⟨hx, hbelow.trans hplace⟩
  obtain ⟨rest', hruns', hend⟩ := hstep.part (runScenario_hasSteps files scenario) _ rest₁ hruns
    ⟨x, hmem, hplace⟩
  rw [recordAt_recordAt fun r hr => hbelow.trans hr] at hruns'
  refine ⟨rest', hruns', fun hfin => ?_⟩
  exact (hend (hfin₁ hfin)).imp_right fun hd => hd.mono fun y hy => (mem_recordAt.mp hy).1

end

end ConformanceHarness.Proof
