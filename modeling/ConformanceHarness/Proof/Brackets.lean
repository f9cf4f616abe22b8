import ConformanceHarness.Lib.Splits
import ConformanceHarness.Proof.StepRuns
import ConformanceHarness.Proof.TraceFile
import ConformanceHarness.Runner.Simulation

/-!
# Brackets in the trace

A step's `StepStarted` is closed by its `StepCompleted`, and `ScenarioStarted` by
`ScenarioCompleted`. Two early returns leave a bracket open: `run_step` returns when a
reference cannot be resolved, and `ScenarioRunner::run` when a fixture cannot be loaded. Where
neither happens every bracket is closed, except in branches that were dropped.
-/

namespace ConformanceHarness.Proof

open Lib Future Runner

/-! ## Marks -/

/-- `step_started` and `step_completed`. -/
def isMarkKind : EventKind → Bool
  | .stepStarted => true
  | .stepCompleted => true
  | _ => false

/-- `scenario_started` and `scenario_completed`. -/
def isScenarioKind : EventKind → Bool
  | .scenarioStarted => true
  | .scenarioCompleted => true
  | _ => false

/-- A bracket of the execution at `p`. -/
def isMarkOf (p : Path) (e : Emitted) : Bool := decide (e.path = p) && isMarkKind e.event.kind

/-- The brackets of the execution at `p` in the trace. -/
def stepMarks (p : Path) (record : Record) : List Emitted := (trace record).filter (isMarkOf p)

/-- The brackets of the scenario in the trace. -/
def scenarioMarks (record : Record) : List Emitted :=
  (trace record).filter fun e => isScenarioKind e.event.kind

/-- The step index of an event. -/
def indexOf (event : TraceEvent) : Option UInt64 :=
  (event.payload.getField "index").bind Value.asU64

/-- `e` says that the step which `s` has started is completed: it has the same index, and comes
from the same execution, and so from the same nesting level. -/
def closes (s e : Emitted) : Bool :=
  decide (e.path = s.path) && decide (e.event.kind = .stepCompleted) &&
    decide (indexOf e.event = indexOf s.event)

/-- Every bracket is closed once, outside of dropped branches. -/
structure WellBracketed (record : Record) : Prop where
  scenario : (scenarioMarks record).map (fun e => e.event.kind) =
    [.scenarioStarted, .scenarioCompleted]
  steps : ∀ a s b, trace record = a ++ s :: b → s.event.kind = .stepStarted →
    ¬ Dropped (Contains s.path) record → b.countP (closes s) = 1

/-! ## Marks of a part of the record -/

section

variable {p : Path} {record record' : Record}

theorem stepMarks_append :
    stepMarks p (record ++ record') = stepMarks p record ++ stepMarks p record' := by
  rw [stepMarks, trace_append, List.filter_append]
  rfl

theorem scenarioMarks_append :
    scenarioMarks (record ++ record') = scenarioMarks record ++ scenarioMarks record' := by
  rw [scenarioMarks, trace_append, List.filter_append]
  rfl

/-- Events with some property are looked up where they are. -/
theorem filter_trace_recordAt {P : Path → Prop} [DecidablePred P] {Q : Emitted → Bool}
    (h : ∀ x ∈ record, ¬ P x.place → ∀ e, written x = some e → Q e = false) :
    (trace (recordAt P record)).filter Q = (trace record).filter Q := by
  induction record with
  | nil => rfl
  | cons x rest ih =>
      have hrest := ih fun y hy => h y (List.mem_cons_of_mem _ hy)
      rw [trace_cons, List.filter_append, ← hrest]
      by_cases hx : P x.place
      · rw [recordAt_cons hx, trace_cons, List.filter_append]
      · rw [recordAt_cons_away hx]
        have hnone : (written x).toList.filter Q = [] := by
          rw [List.filter_eq_nil_iff]
          intro e he
          rw [h x List.mem_cons_self hx e (Option.mem_toList.mp he)]
          exact Bool.false_ne_true
        rw [hnone, List.nil_append]

theorem filter_trace_nil {Q : Emitted → Bool}
    (h : ∀ x ∈ record, ∀ e, written x = some e → Q e = false) : (trace record).filter Q = [] := by
  have hnone : (trace (recordAt (fun _ => False) record)).filter Q = (trace record).filter Q :=
    filter_trace_recordAt fun x hx _ => h x hx
  rw [← hnone, recordAt_none fun x _ => not_false]
  rfl

/-- The brackets of an execution are among the calls of its `run_step`. -/
theorem mark_framing {x : Label runner} {e : Emitted} (h : written x = some e)
    (hkind : isMarkKind e.event.kind = true) : isFraming x = true := by
  rcases x with ⟨⟨q, call⟩, r⟩ | _
  · cases call with
    | emit event =>
        cases r with
        | ok a =>
            obtain rfl := Option.some.inj h
            revert hkind
            rcases event with ⟨kind, _⟩
            cases kind <;> simp [isMarkKind, isFraming]
        | error err => cases h
    | _ => cases h
  · cases h

/-- What happens inside a step puts no bracket of the step. -/
theorem stepMarks_inner (h : ∀ x ∈ record, Inner p x) : stepMarks p record = [] := by
  refine filter_trace_nil fun x hx e he => ?_
  rw [isMarkOf, Bool.and_eq_false_iff]
  by_contra hboth
  rw [not_or, Bool.not_eq_false, Bool.not_eq_false] at hboth
  have hplace : x.place = p := (written_path he).symm.trans (of_decide_eq_true hboth.1)
  exact (h x hx).not_framing ⟨hplace, mark_framing he hboth.2⟩

theorem stepMarks_recordAt : stepMarks p (recordAt (AtOrBelow p) record) = stepMarks p record := by
  refine filter_trace_recordAt fun x _ hnot e he => ?_
  rw [isMarkOf, Bool.and_eq_false_iff]
  left
  refine decide_eq_false fun hpath => hnot ?_
  exact atOrBelow_of_eq ((written_path he).symm.trans hpath)

end

/-! ## Finished runs that could be written -/

section

variable {p : Path} {k rest : Run} {record record' : Record}

theorem Emits.trace {events : List TraceEvent} (h : Emits p events record) (hw : Written record) :
    trace record = events.map fun event => ⟨p, event⟩ := by
  induction h with
  | nil => rfl
  | cons hx _ ih =>
      obtain ⟨r, rfl⟩ := hx
      obtain rfl := hw.ok List.mem_cons_self
      rw [trace_cons, ih (hw.mono (List.subset_cons_self _ _))]
      rfl

theorem emit_finished {event : TraceEvent} (h : (emit p event k).Runs record rest)
    (hfin : rest.finished = true) (hw : Written record) :
    ∃ record', record = .did ⟨p, .emit event⟩ (.ok ()) :: record' ∧ k.Runs record' rest := by
  rcases emit_runs h with ⟨-, hno⟩ | ⟨e, rfl, -⟩ | hok
  · rw [hno] at hfin
    exact nomatch hfin
  · exact nomatch hw.ok List.mem_cons_self
  · exact hok

theorem emitIgnored_finished {events : List TraceEvent}
    (h : (emitIgnored p events k).Runs record rest) (hfin : rest.finished = true) :
    ∃ l₁ l₂, record = l₁ ++ l₂ ∧ Emits p events l₁ ∧ k.Runs l₂ rest := by
  rcases emitIgnored_runs h with ⟨-, hno⟩ | hpast
  · rw [hno] at hfin
    exact nomatch hfin
  · exact hpast

theorem emits_marks {events : List TraceEvent} (h : Emits p events record)
    (hkind : ∀ event ∈ events, isMarkKind event.kind = false) : stepMarks p record = [] := by
  refine filter_trace_nil fun x hx e he => ?_
  obtain ⟨event, hevent, r, rfl⟩ := h.mem hx
  cases r with
  | ok a =>
      obtain rfl := Option.some.inj he
      rw [isMarkOf, hkind event hevent, Bool.and_false]
  | error err => exact nomatch he

variable {idx : Nat} {step : Runner.StepDef}

/-- A `StepCompleted` of the step of this index. -/
def Completes (idx : Nat) (event : TraceEvent) : Prop :=
  event.kind = .stepCompleted ∧ indexOf event = some (UInt64.ofNat idx)

theorem completes_ok {outcome : String} : Completes idx (stepCompleted idx outcome) :=
  ⟨rfl, by simp [indexOf, stepCompleted, internal, TraceEvent.new, Value.getField, Value.ofLen,
    Value.ofU64, Value.asU64]⟩

theorem completes_error {e : RunError} : Completes idx (stepErred idx e) := by
  refine ⟨rfl, ?_⟩
  simp [indexOf, stepErred, internal, TraceEvent.new, Value.getField, List.lookup_cons, Value.ofLen,
    Value.ofU64, Value.asU64]

/-- One event, and nothing after it. -/
theorem marks_completed {event : TraceEvent} (h : Completes idx event) :
    stepMarks p [.did ⟨p, .emit event⟩ (.ok ())] = [⟨p, event⟩] := by
  have hkind : isMarkKind event.kind = true := by rw [h.1]; rfl
  simp [stepMarks, isMarkOf, trace, written, hkind]

/-- How `run_step` ends, if the trace can be written: with the error of the step, or else as its
assertions say. The last event says so. -/
theorem completeStep_ends {result : Except RunError Unit}
    (h : (completeStep p idx step result).Runs record rest) (hfin : rest.finished = true)
    (hw : Written record) :
    ∃ passed asserted event, record = .did ⟨p, .drain (.closing step)⟩ passed ::
        (asserted ++ [.did ⟨p, .emit event⟩ (.ok ())]) ∧
      Emits p ((assertionResults step passed).map (assertionEvent idx)) asserted ∧
      ((event = stepCompleted idx "ok" ∧ result = .ok () ∧ rest = .ret (.ok ())) ∨
      (event = stepCompleted idx "assertion_failed" ∧ result = .ok () ∧
        rest = .ret (.error .assertionFailure)) ∨
      ∃ e, event = stepErred idx e ∧ result = .error e ∧ rest = .ret (.error e)) := by
  rcases Runs.ask h with ⟨-, rfl⟩ | ⟨passed, tail, rfl, hassert⟩
  · exact nomatch hfin
  obtain ⟨asserted, l, rfl, hemits, hlast⟩ := emitIgnored_finished hassert hfin
  have hwritten : Written l :=
    hw.mono fun x hx => List.mem_cons_of_mem _ (List.mem_append_right _ hx)
  cases result with
  | error e =>
      rcases Runs.ask hlast with ⟨-, rfl⟩ | ⟨r, l, rfl, hret⟩
      · exact nomatch hfin
      · obtain ⟨rfl, rfl⟩ := Runs.ret hret
        obtain rfl := hwritten.ok List.mem_cons_self
        exact ⟨passed, asserted, _, rfl, hemits, Or.inr (Or.inr ⟨e, rfl, rfl, rfl⟩)⟩
  | ok a =>
      change Runs (if _ then _ else _) l rest at hlast
      split at hlast
      · obtain ⟨l, rfl, hret⟩ := emit_finished hlast hfin hwritten
        obtain ⟨rfl, rfl⟩ := Runs.ret hret
        exact ⟨passed, asserted, _, rfl, hemits, Or.inl ⟨rfl, rfl, rfl⟩⟩
      · obtain ⟨l, rfl, hret⟩ := emit_finished hlast hfin hwritten
        obtain ⟨rfl, rfl⟩ := Runs.ret hret
        exact ⟨passed, asserted, _, rfl, hemits, Or.inr (Or.inl ⟨rfl, rfl, rfl⟩)⟩

/-- The end of `run_step` closes the bracket. -/
theorem completeStep_marks {result : Except RunError Unit} {passed : List Emitted} {tail : Record}
    (h : (completeStep p idx step result).Runs
      (.did ⟨p, .drain (.closing step)⟩ passed :: tail) rest)
    (hfin : rest.finished = true)
    (hw : Written (.did ⟨p, .drain (.closing step)⟩ passed :: tail)) :
    ∃ event, Completes idx event ∧ stepMarks p tail = [⟨p, event⟩] := by
  obtain ⟨passed, asserted, event, heq, hemits, hends⟩ := completeStep_ends h hfin hw
  obtain ⟨-, rfl⟩ := List.cons.inj heq
  have hassert : stepMarks p asserted = [] := by
    refine emits_marks hemits fun event hevent => ?_
    obtain ⟨result, -, rfl⟩ := List.mem_map.mp hevent
    show isMarkKind (if result.passed then EventKind.assertionPassed else .assertionFailed) = false
    split
    · rfl
    · rfl
  have hcompletes : Completes idx event := by
    rcases hends with ⟨rfl, -, -⟩ | ⟨rfl, -, -⟩ | ⟨e, rfl, -, -⟩
    · exact completes_ok
    · exact completes_ok
    · exact completes_error
  refine ⟨event, hcompletes, ?_⟩
  rw [stepMarks_append, hassert, List.nil_append, marks_completed hcompletes]

/-- An entry that emits an event at `p`. -/
def IsEmission (p : Path) (x : Label runner) : Prop := ∃ event r, x = .did ⟨p, .emit event⟩ r

/-- What follows the assertions are events. -/
theorem completeStep_emits {result : Except RunError Unit} {passed : List Emitted} {tail : Record}
    (h : (completeStep p idx step result).Runs
      (.did ⟨p, .drain (.closing step)⟩ passed :: tail) rest) {x : Label runner} (hx : x ∈ tail) :
    IsEmission p x := by
  rcases Runs.ask h with ⟨heq, -⟩ | ⟨events, tail', heq, hrest⟩
  · exact nomatch heq
  obtain ⟨-, rfl⟩ := List.cons.inj heq
  refine hrest.within (P := IsEmission p) ?_ x hx
  refine emitIgnored_within (fun event _ r => ⟨event, r, rfl⟩) ?_
  cases result with
  | error e => exact emitIgnored_within (fun event _ r => ⟨event, r, rfl⟩) .ret
  | ok a =>
      show Within _ (if _ then _ else _)
      split
      · exact emit_within (fun r => ⟨_, r, rfl⟩) .ret
      · exact emit_within (fun r => ⟨_, r, rfl⟩) .ret

theorem header_marks {o s : List Emitted} :
    stepMarks p (header p idx step o s) = [⟨p, stepStarted idx step.kindStr⟩] := by
  rw [stepMarks, show trace (header p idx step o s) = [⟨p, stepStarted idx step.kindStr⟩] from rfl,
    List.filter_cons_of_pos (by simp [isMarkOf, isMarkKind, stepStarted, internal, TraceEvent.new])]
  rfl

theorem snapshot_marks {params : Value} {vars : VarStore} :
    stepMarks p (.did ⟨p, .snapshot params⟩ vars :: record) = stepMarks p record := rfl

theorem Emits.no_snapshot {events : List TraceEvent} (h : Emits p events record) {params : Value}
    {vars : VarStore} : .did ⟨p, .snapshot params⟩ vars ∉ record := by
  intro hx
  obtain ⟨event, -, r, heq⟩ := h.mem hx
  exact nomatch heq

theorem no_snapshot_inner (h : ∀ x ∈ record, Inner p x) {params : Value} {vars : VarStore} :
    .did ⟨p, .snapshot params⟩ vars ∉ record := fun hx => (h _ hx).not_framing ⟨rfl, rfl⟩

theorem header_no_snapshot {o s : List Emitted} {params : Value} {vars : VarStore} :
    .did ⟨p, .snapshot params⟩ vars ∉ header p idx step o s := by
  simp [header]

theorem closing_no_snapshot {events : List TraceEvent} {references exec tail : Record}
    {result : Except RunError Unit} {passed : List Emitted} {params : Value} {vars : VarStore}
    (hemits : Emits p events references) (hinner : ∀ x ∈ exec, Inner p x)
    (htail : (completeStep p idx step result).Runs
      (.did ⟨p, .drain (.closing step)⟩ passed :: tail) rest) :
    .did ⟨p, .snapshot params⟩ vars ∉
      references ++ exec ++ .did ⟨p, .drain (.closing step)⟩ passed :: tail := by
  intro hx
  rcases List.mem_append.mp hx with hx | hx
  · rcases List.mem_append.mp hx with hx | hx
    · exact hemits.no_snapshot hx
    · exact no_snapshot_inner hinner hx
  · rcases List.mem_cons.mp hx with heq | hx
    · exact nomatch heq
    · obtain ⟨_, r, heq⟩ := completeStep_emits htail hx
      exact nomatch heq

/-- A step takes one snapshot of the variables. -/
theorem snapshot_of_mem {o s : List Emitted} {params params' : Value} {vars vars' : VarStore}
    (h : .did ⟨p, .snapshot params'⟩ vars' ∈
      header p idx step o s ++ .did ⟨p, .snapshot params⟩ vars :: record)
    (hafter : ∀ params vars, .did ⟨p, .snapshot params⟩ vars ∉ record) :
    params' = params ∧ vars' = vars := by
  rcases List.mem_append.mp h with h | h
  · exact absurd h header_no_snapshot
  · rcases List.mem_cons.mp h with heq | h
    · injection heq with hrequest hvars
      injection hrequest with _ hcall
      injection hcall with hparams
      subst hparams
      exact ⟨rfl, hvars⟩
    · exact absurd h (hafter params' vars')

/-- The bracket of a step that has ended: it is closed, unless a reference did not resolve. -/
inductive Bracket (p : Path) (idx : Nat) (step : Runner.StepDef) (record : Record) : Prop where
  | open_ (params : Value) (vars : VarStore) (f : Fault)
      (hmem : .did ⟨p, .snapshot params⟩ vars ∈ record)
      (hsub : substituteInValue params vars = .error f)
      (hmarks : stepMarks p record = [⟨p, stepStarted idx step.kindStr⟩])
  | closed (event : TraceEvent)
      (hsub : ∀ params vars, .did ⟨p, .snapshot params⟩ vars ∈ record →
        ∃ r, substituteInValue params vars = .ok r)
      (hevent : Completes idx event)
      (hmarks : stepMarks p record = [⟨p, stepStarted idx step.kindStr⟩, ⟨p, event⟩])

theorem StepRun.bracket (h : StepRun p idx step record rest) (hfin : rest.finished = true)
    (hw : Written record) : Bracket p idx step record := by
  have hno : rest.finished = false → False := fun hno => nomatch hno.symm.trans hfin
  cases h with
  | starting _ hrest => exact (hno hrest).elim
  | unwritten =>
      have herror := hw.ok (List.mem_cons_of_mem _ (List.mem_singleton.mpr rfl))
      exact nomatch herror
  | @unresolved o s vars f e hsub =>
      refine .open_ _ vars f (List.mem_append_right _ List.mem_cons_self) hsub ?_
      rw [stepMarks_append, header_marks]
      rfl
  | referencing _ _ _ hrest => exact (hno hrest).elim
  | executing _ _ _ hrest => exact (hno hrest).elim
  | @closing o s vars resolved refs references exec result passed tail _ hsub hemits hruns htail =>
      have hinner := hruns.within (executeStep_inner step p resolved)
      have hsub₁ : references ++ exec ++ .did ⟨p, .drain (.closing step)⟩ passed :: tail ⊆
          header p idx step o s ++ .did ⟨p, .snapshot step.substituted⟩ vars ::
            (references ++ exec ++ .did ⟨p, .drain (.closing step)⟩ passed :: tail) :=
        fun x hx => List.mem_append_right _ (List.mem_cons_of_mem _ hx)
      obtain ⟨event, hevent, hmarks⟩ := completeStep_marks htail hfin (hw.mono fun x hx =>
        hsub₁ (List.mem_append_right _ hx))
      refine .closed event ?_ hevent ?_
      · intro params vars' hx
        obtain ⟨rfl, rfl⟩ := snapshot_of_mem hx fun params vars =>
          closing_no_snapshot hemits hinner htail
        exact ⟨_, hsub⟩
      · have hrefs : stepMarks p references = [] := by
          refine emits_marks hemits fun event hevent => ?_
          obtain ⟨ref, -, rfl⟩ := List.mem_map.mp hevent
          rfl
        rw [stepMarks_append, header_marks, snapshot_marks, stepMarks_append, stepMarks_append,
          hrefs, stepMarks_inner hinner,
            show stepMarks p (.did ⟨p, .drain (.closing step)⟩ passed ::
            tail) = stepMarks p tail from rfl, hmarks]
        rfl

end

/-! ## Where the brackets are -/

/-- `scenario_started` and `scenario_completed`. -/
def isScenarioMark : Label runner → Bool
  | .did ⟨_, .emit event⟩ _ => isScenarioKind event.kind
  | _ => false

/-- The entry puts no bracket, and is none of `run_step`. -/
def Plain (x : Label runner) : Prop := isFraming x = false ∧ isScenarioMark x = false

/-- The only brackets are those that `run_step` puts at the path of an execution. -/
def Framed (x : Label runner) : Prop := Plain x ∨ ∃ idx q, Framing (.step idx :: q) x

theorem own_plain {p : Path} {event : OwnEvent} {r : Except RunError Unit} :
    Plain (.did ⟨p, .emit event.event⟩ r) := by
  refine ⟨own_not_framing, ?_⟩
  rcases event with ⟨⟨kind, _⟩, hown⟩
  revert hown
  cases kind <;> simp [isScenarioMark, isScenarioKind, isFrameKind]

theorem runStepWith_framed {q : Path} {idx : Nat} {step : Runner.StepDef}
    {execute : Path → Value → Run}
    (h : ∀ resolved, Within Framed (execute (.step idx :: q) resolved)) :
    Within Framed (runStepWith q idx step execute) := by
  have hframing : ∀ {x : Label runner}, Framing (.step idx :: q) x → Framed x :=
    fun {x} hx => Or.inr ⟨idx, q, hx⟩
  refine .ask (fun _ => hframing ⟨rfl, rfl⟩) fun _ => emit_within (fun _ => hframing ⟨rfl, rfl⟩) ?_
  refine .ask (fun _ => hframing ⟨rfl, rfl⟩) fun _ =>
    .ask (fun _ => hframing ⟨rfl, rfl⟩) fun vars => ?_
  split
  · exact .ret
  · refine emitIgnored_within (fun event hevent r => ?_) (Within.bind (h _) fun result => ?_)
    · obtain ⟨ref, -, rfl⟩ := List.mem_map.mp hevent
      exact hframing ⟨rfl, rfl⟩
    · exact completeStep_framing.imp fun x => hframing

theorem completeParallel_framed {p : Path} {branchCount : Nat} {result : Except RunError Unit} :
    Within Framed (completeParallel p branchCount result) := by
  have haborted : ∀ {k : Run} (n bi : Nat), Within Framed k →
    Within Framed (emitAborted p k bi n) := by
    intro k n
    induction n with
    | zero => exact fun bi hk => hk
    | succ n ih =>
        intro bi hk
        refine .ask (fun _ => Or.inl ⟨rfl, rfl⟩) fun flags => ?_
        show Within Framed (if _ then _ else _)
        split
        · exact .ask (fun _ => Or.inl ⟨rfl, rfl⟩) fun _ => ih (bi + 1) hk
        · exact ih (bi + 1) hk
  cases result with
  | ok a => exact emit_within (fun _ => Or.inl ⟨rfl, rfl⟩) .ret
  | error e => exact haborted _ _ (emit_within (fun _ => Or.inl ⟨rfl, rfl⟩) .ret)

mutual

theorem executeStep_framed (step : Runner.StepDef) (p : Path) (resolved : Value) :
    Within Framed (Runner.executeStep step p resolved) := by
  rw [Runner.executeStep]
  rcases StepParams.fromValue resolved with _ | params
  · exact .ret
  · cases step with
    | leaf kind common =>
        refine .ask (fun _ => Or.inl ⟨rfl, rfl⟩) fun _ => play_within ?_ ?_
        · exact fun _ _ => Or.inl own_plain
        · exact fun _ _ _ => Or.inl ⟨rfl, rfl⟩
    | «repeat» common body =>
        rcases times resolved with _ | n
        · exact .ret
        · refine Within.loop fun i _ => emit_within (fun _ => Or.inl ⟨rfl, rfl⟩) (Within.bind ?_ ?_)
          · exact runBody_framed body _ 0
          · rintro (_ | _)
            · exact emit_within (fun _ => Or.inl ⟨rfl, rfl⟩) .ret
            · exact emit_within (fun _ => Or.inl ⟨rfl, rfl⟩) .ret
    | malformedRepeat common error =>
        rcases times resolved with _ | n
        · exact .ret
        · exact .ret
    | parallel common branches =>
        refine emit_within (fun _ => Or.inl ⟨rfl, rfl⟩) ?_
        exact .join (fun _ => Or.inl ⟨rfl, rfl⟩) (branchFutures_framed branches p 0)
          fun _ => completeParallel_framed
    | malformedParallel common error => exact .ret

theorem runBody_framed (body : List Runner.StepDef) (q : Path) (idx : Nat) :
    Within Framed (runBody body q idx) := by
  cases body with
  | nil => exact .ret
  | cons step rest =>
      rw [runBody]
      exact Within.andThen (runStepWith_framed fun resolved => executeStep_framed step _ resolved)
        (runBody_framed rest q (idx + 1))

theorem runBranch_framed (steps : List Runner.StepDef) (q : Path) (bi si : Nat) :
    Within Framed (runBranch steps q bi si) := by
  cases steps with
  | nil =>
      exact .ask (fun _ => Or.inl ⟨rfl, rfl⟩) fun _ =>
        emit_within (fun _ => Or.inl ⟨rfl, rfl⟩) .ret
  | cons step rest =>
      rw [runBranch]
      refine .ask (fun _ => Or.inl ⟨rfl, rfl⟩) fun _ => Within.bind
        (runStepWith_framed fun resolved => executeStep_framed step _ resolved) ?_
      rintro (e | _)
      · refine .ask (fun _ => Or.inl ⟨rfl, rfl⟩) fun _ =>
          emitIgnored_within (fun event hevent r => ?_) .ret
        rw [List.mem_singleton.mp hevent]
        exact Or.inl ⟨rfl, rfl⟩
      · exact runBranch_framed rest q bi (si + 1)

theorem branchFutures_framed (branches : List (List Runner.StepDef)) (p : Path) (bi : Nat) :
    ∀ c ∈ branchFutures branches p bi, Within Framed c := by
  cases branches with
  | nil =>
      rw [branchFutures]
      exact fun c hc => nomatch hc
  | cons steps rest =>
      rw [branchFutures]
      intro c hc
      rcases List.mem_cons.mp hc with rfl | hc
      · exact emit_within (fun _ => Or.inl ⟨rfl, rfl⟩) (runBranch_framed steps _ bi 0)
      · exact branchFutures_framed rest p (bi + 1) c hc

end

/-- `run_step` puts no bracket of the scenario. -/
theorem framing_not_scenario {p : Path} {x : Label runner} (h : Framing p x) :
    isScenarioMark x = false := by
  obtain ⟨-, hframing⟩ := h
  rcases x with ⟨⟨q, call⟩, r⟩ | _
  · cases call with
    | emit event =>
        revert hframing
        rcases event with ⟨kind, _⟩
        cases kind <;> simp [isFraming, isScenarioMark, isScenarioKind]
    | _ => rfl
  · rfl

theorem Framed.not_scenario {x : Label runner} (h : Framed x) : isScenarioMark x = false := by
  rcases h with ⟨-, hno⟩ | ⟨idx, q, hframing⟩
  · exact hno
  · exact framing_not_scenario hframing

theorem scenarioMarks_nil {record : Record} (h : ∀ x ∈ record, isScenarioMark x = false) :
    scenarioMarks record = [] := by
  refine filter_trace_nil fun x hx e he => ?_
  have hno := h x hx
  rcases x with ⟨⟨q, call⟩, r⟩ | _
  · cases call with
    | emit event =>
        cases r with
        | ok a =>
            obtain rfl := Option.some.inj he
            exact hno
        | error err => exact nomatch he
    | _ => exact nomatch he
  · exact nomatch he

/-! ## The brackets of a scenario -/

section

variable {files : Files} {scenario : Scenario} {record : Record} {rest k : Run}

/-- The kinds of the brackets of the scenario. -/
abbrev scenarioKinds (record : Record) : List EventKind :=
  (scenarioMarks record).map fun e => e.event.kind

theorem scenarioKinds_append {record' : Record} :
    scenarioKinds (record ++ record') = scenarioKinds record ++ scenarioKinds record' := by
  rw [scenarioKinds, scenarioMarks_append, List.map_append]

theorem emitCompleted_marks {name outcome : String} {passed failed : Nat} {r : Except RunError Unit}
    (h : (emitCompleted name passed failed outcome (.ret r)).Runs record rest)
    (hfin : rest.finished = true) (hw : Written record) :
    scenarioKinds record = [.scenarioCompleted] := by
  rcases Runs.ask h with ⟨-, rfl⟩ | ⟨ms, l, rfl, hrest⟩
  · exact nomatch hfin
  obtain ⟨l₁, l₂, rfl, hemits, hret⟩ := emitIgnored_finished hrest hfin
  obtain ⟨rfl, -⟩ := Runs.ret hret
  have hw₁ : Written l₁ := hw.mono fun x hx =>
    List.mem_cons_of_mem _ (List.mem_append_left _ hx)
  rw [List.append_nil, scenarioKinds, scenarioMarks,
    show trace (.did ⟨root, .elapsed⟩ ms :: l₁) = trace l₁ from rfl, hemits.trace hw₁]
  rfl

theorem runSteps_marks {name : String} (steps : List Runner.StepDef) (i : Nat)
    (h : (Runner.runSteps name i steps).Runs record rest) (hfin : rest.finished = true)
    (hw : Written record) : scenarioKinds record = [.scenarioCompleted] := by
  induction steps generalizing record i with
  | nil => exact emitCompleted_marks h hfin hw
  | cons step steps ih =>
      rw [Runner.runSteps] at h
      rcases h.bind with ⟨t, -, rfl⟩ | ⟨r, l₁, l₂, rfl, hstep, hafter⟩
      · -- the step has not come to an end, and neither has the scenario
        obtain ⟨r, rfl⟩ := finished_of_bind hfin
        cases r with
        | error e => cases hfin
        | ok a =>
            cases steps with
            | nil => cases hfin
            | cons _ _ => cases hfin
      have hstep' : scenarioKinds l₁ = [] := by
        have hframed := hstep.within (runStepWith_framed (q := root) fun resolved =>
          executeStep_framed step _ resolved)
        rw [scenarioKinds, scenarioMarks_nil fun x hx => (hframed x hx).not_scenario]
        rfl
      have hw₂ : Written l₂ := hw.mono (List.subset_append_right _ _)
      rw [scenarioKinds_append, hstep', List.nil_append]
      cases r with
      | ok a => exact ih (i + 1) hafter hw₂
      | error e =>
          rcases Runs.ask hafter with ⟨-, rfl⟩ | ⟨names, l, rfl, hclosed⟩
          · cases hfin
          obtain ⟨l₃, l₄, rfl, hemits, hcompleted⟩ := emitIgnored_finished hclosed hfin
          have hl₃ : scenarioMarks l₃ = [] := by
            refine scenarioMarks_nil fun x hx => ?_
            obtain ⟨event, hevent, r, rfl⟩ := hemits.mem hx
            obtain ⟨name, -, rfl⟩ := List.mem_map.mp hevent
            rfl
          have hw₄ : Written l₄ := hw₂.mono fun x hx =>
            List.mem_cons_of_mem _ (List.mem_append_right _ hx)
          rw [show scenarioKinds (.did ⟨root, .openConnections⟩ names :: (l₃ ++ l₄)) =
            scenarioKinds (l₃ ++ l₄) from rfl, scenarioKinds_append, scenarioKinds, hl₃]
          exact emitCompleted_marks hcompleted hfin hw₄

/-- The fixtures of the declared peers can be loaded. -/
def PeersLoad (files : Files) (scenario : Scenario) : Prop :=
  ∀ peers, scenario.network = some peers → ∀ peer ∈ peers, ∃ ps, peer.initialState files = .ok ps

/-- The initialisation of the peers goes through, or a fixture cannot be loaded. -/
theorem initPeers_runs {peers : List Peer} (h : (initPeers files k peers).Runs record rest)
    (hfin : rest.finished = true) (hw : Written record) :
    ((∀ peer ∈ peers, ∃ ps, peer.initialState files = .ok ps) ∧
      ∃ l₁ l₂, record = l₁ ++ l₂ ∧ scenarioMarks l₁ = [] ∧ k.Runs l₂ rest) ∨
    ((∃ peer ∈ peers, ∃ f, peer.initialState files = .error f) ∧ scenarioMarks record = []) := by
  induction peers generalizing record with
  | nil => exact Or.inl ⟨fun _ hp => (nomatch hp), [], record, rfl, rfl, h⟩
  | cons peer peers ih =>
      rw [initPeers] at h
      rcases hload : peer.initialState files with f | ps
      · simp only [hload] at h
        obtain ⟨rfl, -⟩ := Runs.ret h
        exact Or.inr ⟨⟨peer, List.mem_cons_self, f, hload⟩, rfl⟩
      simp only [hload] at h
      obtain ⟨l, rfl, hrest⟩ := emit_finished h hfin hw
      rcases ih hrest (hw.mono (List.subset_cons_self _ _)) with
        ⟨hall, l₁, l₂, rfl, hmarks, hk⟩ | ⟨⟨p, hp, hf⟩, hmarks⟩
      · left
        refine ⟨?_, _ :: l₁, l₂, rfl, ?_, hk⟩
        · intro p hp
          rcases List.mem_cons.mp hp with rfl | hp
          · exact ⟨ps, hload⟩
          · exact hall p hp
        · exact hmarks
      · exact Or.inr ⟨⟨p, List.mem_cons_of_mem _ hp, hf⟩, hmarks⟩

/-- The bracket of the scenario is closed, unless a fixture cannot be loaded. -/
theorem runScenario_marks (h : (runScenario files scenario).Runs record rest)
    (hfin : rest.finished = true) (hw : Written record) :
    (PeersLoad files scenario ∧ scenarioKinds record = [.scenarioStarted, .scenarioCompleted]) ∨
      (¬ PeersLoad files scenario ∧ scenarioKinds record = [.scenarioStarted]) := by
  obtain ⟨l, rfl, hrest⟩ := emit_finished h hfin hw
  have hw' : Written l := hw.mono (List.subset_cons_self _ _)
  have hstarted : ∀ l : Record,
      scenarioKinds (.did ⟨root, .emit (scenarioStarted scenario)⟩ (.ok ()) :: l) =
        .scenarioStarted :: scenarioKinds l := fun l => rfl
  rw [hstarted]
  rcases hnetwork : scenario.network with _ | peers
  · simp only [hnetwork] at hrest
    left
    refine ⟨fun peers heq => ?_, by rw [runSteps_marks _ _ hrest hfin hw']⟩
    rw [hnetwork] at heq
    exact nomatch heq
  · simp only [hnetwork] at hrest
    obtain ⟨l, rfl, hpeers⟩ := emit_finished hrest hfin hw'
    have hw'' : Written l := hw'.mono (List.subset_cons_self _ _)
    rw [show scenarioKinds (.did ⟨root, .emit (networkDeclared peers)⟩ (.ok ()) :: l) =
      scenarioKinds l from rfl]
    rcases initPeers_runs hpeers hfin hw'' with ⟨hall, l₁, l₂, rfl, hmarks, hk⟩ |
      ⟨⟨peer, hpeer, f, hf⟩, hmarks⟩
    · left
      refine ⟨fun peers' heq => ?_, ?_⟩
      · obtain rfl := Option.some.inj (hnetwork.symm.trans heq)
        exact hall
      · rw [scenarioKinds_append, scenarioKinds, hmarks,
          runSteps_marks _ _ hk hfin (hw''.mono (List.subset_append_right _ _))]
        rfl
    · right
      refine ⟨fun hload => ?_, by rw [scenarioKinds, hmarks]; rfl⟩
      obtain ⟨ps, hps⟩ := hload peers hnetwork peer hpeer
      rw [hf] at hps
      exact nomatch hps

end

/-! ## Every bracket -/

/-- Every reference in the parameters of a step resolves, outside of dropped branches. -/
def ReferencesResolve (record : Record) : Prop :=
  ∀ p params vars, .did ⟨p, .snapshot params⟩ vars ∈ record → ¬ Dropped (Contains p) record →
    ∃ r, substituteInValue params vars = .ok r

/-- The references of the parameters that an entry looks up resolve. -/
def resolves : Label runner → Bool
  | .did ⟨_, .snapshot params⟩ vars => (substituteInValue params vars).isOk
  | _ => true

/-- Not the entry of a dropped branch. -/
def isRequest : Label runner → Bool
  | .did _ _ => true
  | .dropped _ _ => false

section

variable {files : Files} {scenario : Scenario} {events : List OwnEvent} {vars : VarStore}
  {record : Record} {rest : Run}

theorem resolves_of_mem {p : Path} {params : Value} {vars : VarStore}
    (h : record.all resolves = true) (hmem : .did ⟨p, .snapshot params⟩ vars ∈ record) :
    ∃ r, substituteInValue params vars = .ok r := by
  have hok : (substituteInValue params vars).isOk = true := List.all_eq_true.mp h _ hmem
  rcases hsub : substituteInValue params vars with f | r
  · rw [hsub] at hok
    exact nomatch hok
  · exact ⟨r, rfl⟩

/-- What `run_step` does, it does at the path of an execution. -/
theorem runScenario_framing (files : Files) (scenario : Scenario) :
    Within (fun x => isFraming x = true → ∃ idx q, x.place = .step idx :: q)
      (runScenario files scenario) := by
  have hplain : ∀ {x : Label runner}, isFraming x = false →
      isFraming x = true → ∃ idx q, x.place = .step idx :: q :=
    fun hno hframing => nomatch hno.symm.trans hframing
  have hcompleted : ∀ {name outcome : String} {passed failed : Nat} {r : Except RunError Unit},
      Within (fun x => isFraming x = true → ∃ idx q, x.place = .step idx :: q)
        (emitCompleted name passed failed outcome (.ret r)) := by
    intro name outcome passed failed r
    refine .ask (fun _ => hplain rfl) fun ms => emitIgnored_within (fun event hevent _ => ?_) .ret
    rw [List.mem_singleton.mp hevent]
    exact hplain rfl
  have hsteps : ∀ (steps : List Runner.StepDef) (i : Nat),
      Within (fun x => isFraming x = true → ∃ idx q, x.place = .step idx :: q)
        (Runner.runSteps scenario.name i steps) := by
    intro steps
    induction steps with
    | nil => exact fun i => hcompleted
    | cons step steps ih =>
        intro i
        rw [Runner.runSteps]
        refine Within.bind ?_ ?_
        · refine (runStepWith_framed fun resolved => executeStep_framed step _ resolved).imp
            fun x hx hframing => ?_
          rcases hx with ⟨hno, -⟩ | ⟨idx, q, hplace, -⟩
          · exact hplain hno hframing
          · exact ⟨idx, q, hplace⟩
        · rintro (e | _)
          · refine .ask (fun _ => hplain rfl) fun names =>
              emitIgnored_within (fun event hevent _ => ?_) hcompleted
            obtain ⟨name, -, rfl⟩ := List.mem_map.mp hevent
            exact hplain rfl
          · exact ih (i + 1)
  have hpeers : ∀ peers, Within (fun x => isFraming x = true → ∃ idx q, x.place = .step idx :: q)
      (initPeers files (Runner.runSteps scenario.name 0 scenario.steps) peers) := by
    intro peers
    induction peers with
    | nil => exact hsteps _ _
    | cons peer peers ih =>
        rw [initPeers]
        rcases peer.initialState files with f | ps
        · exact .ret
        · exact emit_within (fun _ => hplain rfl) ih
  refine emit_within (fun _ => hplain rfl) ?_
  rcases scenario.network with _ | peers
  · exact hsteps _ _
  · exact emit_within (fun _ => hplain rfl) (hpeers peers)

/-- Outside of the scenario there are no brackets. -/
theorem program_outside (files : Files) (scenario : Scenario) (events : List OwnEvent) :
    Within (fun x => AtOrBelow root x.place ∨ Plain x) (program files scenario events) := by
  refine .join (fun _ => Or.inr ⟨rfl, rfl⟩) ?_ fun _ => .ret
  intro c hc
  rcases List.mem_cons.mp hc with rfl | hc
  · exact Within.imp (runScenario_stays files scenario) fun x hx => Or.inl hx
  · rw [List.mem_singleton.mp hc]
    refine emitIgnored_within (fun event hevent r => ?_) .ret
    obtain ⟨own, -, rfl⟩ := List.mem_map.mp hevent
    exact Or.inr own_plain

/-- The bracket of every execution that was not dropped. -/
theorem execution_bracket (hrun : ScenarioRun files scenario events vars record rest)
    (hfin : rest.finished = true) (hw : Written record) {x : Label runner} (hx : x ∈ record)
    (hframing : isFraming x = true) (hdropped : ¬ Dropped (Contains x.place) record) :
    ∃ idx step, Bracket x.place idx step (recordAt (AtOrBelow x.place) record) := by
  have hroot : AtOrBelow root x.place := by
    rcases hrun.runs.within (program_outside files scenario events) x hx with hroot | ⟨hno, -⟩
    · exact hroot
    · exact nomatch hno.symm.trans hframing
  obtain ⟨rest₁, hruns, -⟩ := scenario_run hrun.runs
  obtain ⟨idx, q, hplace⟩ := hruns.within (runScenario_framing files scenario) x
    (mem_recordAt.mpr ⟨hx, hroot⟩) hframing
  have hself : AtOrBelow (.step idx :: q) x.place := hplace ▸ List.suffix_refl _
  rw [hplace] at hroot hdropped ⊢
  have hq : AtOrBelow root q := by
    rcases List.suffix_cons_iff.mp hroot with heq | hq
    · exact nomatch (List.cons.inj heq).1
    · exact hq
  obtain ⟨step, hstep⟩ := locates_of_mem hrun.runs hx hq hself
  obtain ⟨rest', hlocal, hend⟩ := local_run hrun.runs hstep ⟨x, hx, hself⟩
  refine ⟨idx, step, (stepRun_of_runs hlocal).bracket ((hend hfin).resolve_right hdropped) ?_⟩
  exact hw.mono fun y hy => (mem_recordAt.mp hy).1

theorem scenarioKinds_root (h : (program files scenario events).Runs record rest) :
    scenarioKinds (recordAt (AtOrBelow root) record) = scenarioKinds record := by
  have hmarks : scenarioMarks (recordAt (AtOrBelow root) record) = scenarioMarks record := ?_
  · rw [scenarioKinds, hmarks]
  refine filter_trace_recordAt fun x hx hnot e he => ?_
  obtain ⟨-, hno⟩ := (h.within (program_outside files scenario events) x hx).resolve_left hnot
  rcases x with ⟨⟨q, call⟩, r⟩ | _
  · cases call with
    | emit event =>
        cases r with
        | ok a =>
            obtain rfl := Option.some.inj he
            exact hno
        | error err => exact nomatch he
    | _ => exact nomatch he
  · exact nomatch he

/-- What closes a step is a bracket of the same execution. -/
theorem countP_closes {s : Emitted} {l : List Emitted} :
    (l.filter (isMarkOf s.path)).countP (closes s) = l.countP (closes s) := by
  rw [List.countP_filter]
  refine List.countP_congr fun e _ => ?_
  rw [Bool.and_eq_true, and_iff_left_iff_imp]
  intro h
  simp only [closes, Bool.and_eq_true, decide_eq_true_eq] at h
  simp [isMarkOf, h.1.1, h.1.2, isMarkKind]

/-- A `StepStarted` and the bracket it belongs to. -/
theorem started_split {p : Path} {a b : List Emitted} {s : Emitted} {first : Emitted}
    {later : List Emitted} (htrace : trace record = a ++ s :: b)
    (hkind : s.event.kind = .stepStarted) (hpath : s.path = p)
    (hmarks : stepMarks p record = first :: later)
    (hlater : ∀ e ∈ later, e.event.kind ≠ .stepStarted) :
    s = first ∧ b.filter (isMarkOf p) = later := by
  have hs : isMarkOf p s = true := by simp [isMarkOf, hpath, hkind, isMarkKind]
  rw [stepMarks, htrace, List.filter_append, List.filter_cons_of_pos hs] at hmarks
  cases hfilter : a.filter (isMarkOf p) with
  | nil =>
      rw [hfilter] at hmarks
      exact List.cons.inj hmarks
  | cons e rest =>
      rw [hfilter] at hmarks
      have hmem : s ∈ later := (List.cons.inj hmarks).2 ▸ List.mem_append_cons_self
      exact absurd hkind (hlater s hmem)

/-- **Brackets are closed exactly if nothing fails before a step is executed.** In a run that
has come to an end and could be written, every bracket is closed exactly if the fixtures of
all peers can be loaded and every reference resolves. -/
theorem well_bracketed_iff (hrun : ScenarioRun files scenario events vars record rest)
    (hfin : rest.finished = true) (hw : Written record) :
    WellBracketed record ↔ PeersLoad files scenario ∧ ReferencesResolve record := by
  obtain ⟨rest₁, hruns, hend⟩ := scenario_run hrun.runs
  have hscenario := runScenario_marks hruns (hend hfin)
    (hw.mono fun y hy => (mem_recordAt.mp hy).1)
  rw [scenarioKinds_root hrun.runs] at hscenario
  constructor
  · rintro ⟨hkinds, hsteps⟩
    refine ⟨?_, ?_⟩
    · rcases hscenario with ⟨hload, -⟩ | ⟨-, hopen⟩
      · exact hload
      · exact nomatch hkinds.symm.trans hopen
    · intro p params vars' hmem hdropped
      obtain ⟨idx, step, hbracket⟩ := execution_bracket hrun hfin hw hmem rfl hdropped
      change Bracket p idx step (recordAt (AtOrBelow p) record) at hbracket
      cases hbracket with
      | closed _ hsub _ _ =>
          exact hsub params vars' (mem_recordAt.mpr ⟨hmem, List.suffix_refl _⟩)
      | open_ params' vars'' f hmem' hsub hmarks =>
          -- the step has started, and nothing closes its bracket
          rw [stepMarks_recordAt] at hmarks
          have hin : ⟨p, stepStarted idx step.kindStr⟩ ∈ trace record :=
            List.mem_of_mem_filter (hmarks ▸ List.mem_cons_self)
          obtain ⟨a, b, htrace⟩ := List.append_of_mem hin
          have hone := hsteps a _ b htrace rfl hdropped
          obtain ⟨-, hnone⟩ := started_split htrace rfl rfl hmarks fun e he => nomatch he
          rw [← countP_closes, hnone] at hone
          exact nomatch hone
  · rintro ⟨hload, hresolve⟩
    refine ⟨?_, ?_⟩
    · rcases hscenario with ⟨-, hkinds⟩ | ⟨hno, -⟩
      · exact hkinds
      · exact absurd hload hno
    · intro a s b htrace hkind hdropped
      have hs : s ∈ trace record := htrace ▸ List.mem_append_cons_self
      obtain ⟨x, hx, hxs⟩ := List.mem_filterMap.mp hs
      have hplace := written_path hxs
      have hframing := mark_framing hxs (by rw [hkind]; rfl)
      rw [hplace] at hdropped
      obtain ⟨idx, step, hbracket⟩ := execution_bracket hrun hfin hw hx hframing hdropped
      cases hbracket with
      | open_ params vars' f hmem hsub _ =>
          obtain ⟨r, hr⟩ := hresolve _ params vars' (mem_recordAt.mp hmem).1 hdropped
          exact nomatch hsub.symm.trans hr
      | closed event _ hevent hmarks =>
          rw [stepMarks_recordAt] at hmarks
          obtain ⟨rfl, hlater⟩ := started_split htrace hkind hplace hmarks fun e he => by
            rw [List.mem_singleton.mp he, hevent.1]
            exact nofun
          rw [← countP_closes, hplace, hlater]
          have hindex : indexOf (stepStarted idx step.kindStr) = some (UInt64.ofNat idx) := by
            simp [indexOf, stepStarted, internal, TraceEvent.new, Value.getField, Value.ofLen,
              Value.ofU64, Value.asU64]
          simp [closes, hevent.1, hevent.2, hindex]

end

/-- The schedule of a scenario without parallel steps: `n` requests, and the scenario is over. -/
def straight (n : Nat) : Schedule := List.replicate n ([0], .ok ()) ++ [([], .ok ())]

/-- Sleeps, and comes to an end. -/
def slept : Record := simulated noFiles (scenarioOf [sleeping none]) (fun _ => none) (straight 10)

/-- The brackets of a step that sleeps. -/
theorem slept_wellBracketed : WellBracketed slept := by
  have hrun : ScenarioRun noFiles (scenarioOf [sleeping none]) [] (fun _ => none) slept _ :=
    simulated_run (by decide +kernel)
  refine (well_bracketed_iff hrun (by decide +kernel) (written_of_length (by decide +kernel))).mpr
    ⟨fun peers h => (nomatch h), ?_⟩
  intro p params vars hmem _
  have hall : slept.all resolves = true := by decide +kernel
  exact resolves_of_mem hall hmem

/-- Sleeps for as long as a variable says that nobody has set. -/
def sleepUnset : Runner.StepDef :=
  .leaf .sleep ⟨.object [("duration_secs", .string "$unset")], none⟩

/-- A run of `sleepUnset` that has come to an end. -/
def unset : Record := simulated noFiles (scenarioOf [sleepUnset]) (fun _ => none) (straight 8)

/-- The step has started, the scenario is completed, and the step is not. -/
theorem started_never_completed : ∃ record rest,
    ScenarioRun noFiles (scenarioOf [sleepUnset]) [] (fun _ => none) record rest ∧
    rest.finished = true ∧ Written record ∧
    (trace record).map (fun e => e.event.kind) =
      [.scenarioStarted, .stepStarted, .scenarioCompleted] ∧
    ¬ WellBracketed record := by
  have hrun : ScenarioRun noFiles (scenarioOf [sleepUnset]) [] (fun _ => none) unset _ :=
    simulated_run (by decide +kernel)
  have hkinds : (trace unset).map (fun e => e.event.kind) =
      [.scenarioStarted, .stepStarted, .scenarioCompleted] := by decide +kernel
  refine ⟨unset, _, hrun, by decide +kernel, written_of_length (by decide +kernel), hkinds, ?_⟩
  rintro ⟨-, hsteps⟩
  obtain ⟨e₁, l₁, htrace, -, h₁⟩ := List.map_eq_cons_iff.mp hkinds
  obtain ⟨e₂, l₂, rfl, hstarted, h₂⟩ := List.map_eq_cons_iff.mp h₁
  obtain ⟨e₃, l₃, rfl, hcompleted, h₃⟩ := List.map_eq_cons_iff.mp h₂
  obtain rfl := List.map_eq_nil_iff.mp h₃
  have hnone : [e₃].countP (closes e₂) = 0 := by simp [closes, hcompleted]
  have hone : [e₃].countP (closes e₂) = 1 := by
    refine hsteps [e₁] e₂ [e₃] htrace hstarted ?_
    rintro ⟨p, bi, hmem, -⟩
    have hall : unset.all isRequest = true := by decide +kernel
    exact nomatch List.all_eq_true.mp hall _ hmem
  omega

end ConformanceHarness.Proof
