import ConformanceHarness.Lib.Splits
import ConformanceHarness.Proof.StepRuns
import ConformanceHarness.Proof.TraceFile
import ConformanceHarness.Runner.Simulation
import Mathlib.Data.List.Induction

/-!
# What the assertions of a step look at

The events a step's assertions are evaluated on are those in the buffer when `run_step`
drains it the third time. There is one buffer for all: a step of a `repeat` or a `parallel`
drains it too, and so does a step of a branch next to it, and everybody's events go into it.

The *window* of an execution is what is recorded between the drain after its `StepStarted`
and the drain for its assertions. The assertions of a control step see the whole window
exactly if nobody drains the buffer in it once it holds an event: no step of its own, and no
step of another branch. The assertions of a step of a branch see the events of that step and
no others exactly if nobody takes one of them away, and everything others emit is taken away.
-/

namespace ConformanceHarness.Proof

open Lib Future Runner

/-! ## The buffer -/

section

variable {mid : Record} {buffer : List Emitted}

theorem bufferStep_drain {x : Label runner} (h : isDrain x = true) : bufferStep buffer x = [] := by
  rw [bufferStep, if_pos h]

theorem bufferStep_keep {x : Label runner} (h : isDrain x = false) :
    bufferStep buffer x = buffer ++ (emitted x).toList := by
  rw [bufferStep, if_neg (by rw [h]; exact Bool.false_ne_true)]

theorem emitted_of_isDrain {x : Label runner} (h : isDrain x = true) : emitted x = none := by
  rcases x with ⟨⟨p, call⟩, r⟩ | _
  · cases call with
    | emit event => exact nomatch h
    | _ => rfl
  · rfl

/-- Without a drain, everything emitted is still there. -/
theorem foldl_bufferStep_of_no_drain (h : ∀ x ∈ mid, isDrain x = false) :
    mid.foldl bufferStep buffer = buffer ++ emissions mid := by
  induction mid generalizing buffer with
  | nil => exact (List.append_nil buffer).symm
  | cons x rest ih =>
      rw [List.foldl_cons, bufferStep_keep (h x List.mem_cons_self), emissions_cons,
        ih fun y hy => h y (List.mem_cons_of_mem _ hy), List.append_assoc]

/-- What is in the buffer are the last events emitted. -/
theorem foldl_bufferStep_suffix : mid.foldl bufferStep buffer <:+ buffer ++ emissions mid := by
  induction mid generalizing buffer with
  | nil =>
      rw [show emissions [] = [] from rfl, List.append_nil]
      exact List.suffix_refl _
  | cons x rest ih =>
      rw [List.foldl_cons, emissions_cons]
      by_cases hx : isDrain x = true
      · rw [bufferStep_drain hx, emitted_of_isDrain hx]
        exact ih.trans (List.suffix_append buffer _)
      · rw [Bool.not_eq_true] at hx
        rw [bufferStep_keep hx, ← List.append_assoc]
        exact ih

/-- A window is complete exactly if no event is drained from it. -/
theorem buffer_complete_iff :
    mid.foldl bufferStep [] = emissions mid ↔
      ∀ a x b, mid = a ++ x :: b → isDrain x = true → emissions a = [] := by
  constructor
  · intro h a x b hmid hx
    have hlater : mid.foldl bufferStep [] = b.foldl bufferStep [] := by
      rw [hmid, List.foldl_append, List.foldl_cons, bufferStep_drain hx]
    have hsuffix : b.foldl bufferStep [] <:+ [] ++ emissions b := foldl_bufferStep_suffix
    have hle : (b.foldl bufferStep []).length ≤ (emissions b).length := hsuffix.length_le
    rw [← hlater, h, hmid, emissions_append, emissions_cons, List.length_append,
      List.length_append] at hle
    exact List.eq_nil_of_length_eq_zero (by omega)
  · intro h
    induction mid using List.reverseRecOn with
    | nil => rfl
    | append_singleton init x ih =>
        have hinit : init.foldl bufferStep [] = emissions init := by
          refine ih fun a y b hmid hy => h a y (b ++ [x]) ?_ hy
          rw [hmid, List.append_assoc, List.cons_append]
        rw [List.foldl_append, List.foldl_cons, List.foldl_nil, hinit, emissions_append]
        by_cases hx : isDrain x = true
        · rw [bufferStep_drain hx, h init x [] rfl hx, emissions_cons, emitted_of_isDrain hx]
          rfl
        · rw [Bool.not_eq_true] at hx
          rw [bufferStep_keep hx, emissions_cons]
          exact congrArg _ (List.append_nil _).symm

/-- A list ends after its last drain. -/
theorem last_drain (mid : Record) :
    (∀ x ∈ mid, isDrain x = false) ∨
      ∃ a d b, mid = a ++ d :: b ∧ isDrain d = true ∧ ∀ x ∈ b, isDrain x = false := by
  induction mid with
  | nil => exact Or.inl fun x hx => nomatch hx
  | cons x rest ih =>
      rcases ih with hnone | ⟨a, d, b, rfl, hd, hb⟩
      · by_cases hx : isDrain x = true
        · exact Or.inr ⟨[], x, rest, rfl, hx, hnone⟩
        · refine Or.inl fun y hy => ?_
          rcases List.mem_cons.mp hy with rfl | hy
          · exact (Bool.not_eq_true _).mp hx
          · exact hnone y hy
      · exact Or.inr ⟨x :: a, d, b, rfl, hd, hb⟩

/-- The buffer holds the events of some, and no others, exactly if none of theirs has been
drained, and all others have. -/
theorem buffer_own_iff {own : Emitted → Bool} :
    mid.foldl bufferStep [] = (emissions mid).filter own ↔
      (∀ a x b, mid = a ++ x :: b → isDrain x = true → (emissions a).filter own = []) ∧
      ∀ a x b e, mid = a ++ x :: b → emitted x = some e → own e = false →
        ∃ y ∈ b, isDrain y = true := by
  have hemitted : ∀ {a : Record} {x : Label runner} {b : Record} {e : Emitted},
      emitted x = some e → e ∈ emissions (a ++ x :: b) := by
    intro a x b e he
    exact List.mem_filterMap.mpr ⟨x, List.mem_append_cons_self, he⟩
  rcases last_drain mid with hnone | ⟨a₀, d, b₀, hmid, hd, hb₀⟩
  · rw [foldl_bufferStep_of_no_drain hnone, List.nil_append, eq_comm, List.filter_eq_self]
    constructor
    · intro h
      refine ⟨?_, ?_⟩
      · intro a x b hmid hx
        rw [hnone x (hmid ▸ List.mem_append_cons_self)] at hx
        exact nomatch hx
      · intro a x b e hmid he hown
        rw [h e (hmid ▸ hemitted he)] at hown
        exact nomatch hown
    · rintro ⟨-, hforeign⟩ e he
      obtain ⟨x, hx, hxe⟩ := List.mem_filterMap.mp he
      obtain ⟨a, b, hmid⟩ := List.append_of_mem hx
      by_contra hown
      obtain ⟨y, hy, hdrain⟩ := hforeign a x b e hmid hxe ((Bool.not_eq_true _).mp hown)
      rw [hnone y (hmid ▸ List.mem_append_right _ (List.mem_cons_of_mem _ hy))] at hdrain
      exact nomatch hdrain
  · have hbuffer : mid.foldl bufferStep [] = emissions b₀ := by
      rw [hmid, List.foldl_append, List.foldl_cons, bufferStep_drain hd,
        foldl_bufferStep_of_no_drain hb₀, List.nil_append]
    have hfilter : (emissions mid).filter own =
        (emissions a₀).filter own ++ (emissions b₀).filter own := by
      rw [hmid, emissions_append, emissions_cons, emitted_of_isDrain hd, List.filter_append]
      rfl
    rw [hbuffer, hfilter]
    -- a drain of the window is the last one, or before it
    have hbefore : ∀ a x b, mid = a ++ x :: b → isDrain x = true → ∃ c, a₀ = a ++ c := by
      intro a x b hsplit hx
      rcases List.append_eq_append_iff.mp (hmid.symm.trans hsplit) with ⟨m, rfl, hm⟩ | ⟨m, rfl, -⟩
      · cases m with
        | nil => exact ⟨[], by simp⟩
        | cons y m =>
            have htail : b₀ = m ++ x :: b := (List.cons.inj hm).2
            rw [hb₀ x (htail ▸ List.mem_append_cons_self)] at hx
            exact nomatch hx
      · exact ⟨m, rfl⟩
    constructor
    · intro h
      have hall : ∀ e ∈ emissions b₀, own e = true := by
        intro e he
        rw [h] at he
        rcases List.mem_append.mp he with he | he
        · exact (List.mem_filter.mp he).2
        · exact (List.mem_filter.mp he).2
      have ha₀ : (emissions a₀).filter own = [] := by
        rw [List.filter_eq_self.mpr hall] at h
        exact List.append_left_eq_self.mp h.symm
      refine ⟨?_, ?_⟩
      · intro a x b hsplit hx
        obtain ⟨c, rfl⟩ := hbefore a x b hsplit hx
        rw [emissions_append, List.filter_append] at ha₀
        exact (List.append_eq_nil_iff.mp ha₀).1
      · intro a x b e hsplit he hown
        rcases List.append_eq_append_iff.mp (hmid.symm.trans hsplit) with
          ⟨m, rfl, hm⟩ | ⟨m, rfl, hm⟩
        · cases m with
          | nil =>
              obtain ⟨rfl, -⟩ := List.cons.inj hm
              rw [emitted_of_isDrain hd] at he
              exact nomatch he
          | cons y m =>
              obtain ⟨rfl, rfl⟩ := List.cons.inj hm
              rw [hall e (hemitted he)] at hown
              exact nomatch hown
        · cases m with
          | nil =>
              obtain ⟨rfl, -⟩ := List.cons.inj hm
              rw [emitted_of_isDrain hd] at he
              exact nomatch he
          | cons y m =>
              obtain ⟨rfl, rfl⟩ := List.cons.inj hm
              exact ⟨d, List.mem_append_cons_self, hd⟩
    · rintro ⟨hown, hforeign⟩
      rw [hown a₀ d b₀ hmid hd, List.nil_append, eq_comm, List.filter_eq_self]
      intro e he
      obtain ⟨x, hx, hxe⟩ := List.mem_filterMap.mp he
      obtain ⟨a, b, rfl⟩ := List.append_of_mem hx
      by_contra hnot
      obtain ⟨y, hy, hdrain⟩ := hforeign (a₀ ++ d :: a) x b e (by rw [hmid]; simp) hxe
        ((Bool.not_eq_true _).mp hnot)
      rw [hb₀ y (List.mem_append_right _ (List.mem_cons_of_mem _ hy))] at hdrain
      exact nomatch hdrain

end

/-! ## The window of an execution -/

theorem Emits.not_drain {p : Path} {events : List TraceEvent} {record : Record}
    (h : Emits p events record) {x : Label runner} (hx : x ∈ record) : isDrain x = false := by
  obtain ⟨event, -, r, rfl⟩ := h.mem hx
  rfl

/-- The drain that the assertions of a step at this path look at. -/
def isClosing : Label runner → Bool
  | .did ⟨_, .drain (.closing _)⟩ _ => true
  | _ => false

/-- `step_started`. -/
def isStarted : Label runner → Bool
  | .did ⟨_, .emit event⟩ _ => event.kind = .stepStarted
  | _ => false

theorem isFraming_of_isDrain {x : Label runner} (h : isDrain x = true) : isFraming x = true := by
  rcases x with ⟨⟨q, call⟩, r⟩ | _
  · cases call with
    | drain which => rfl
    | _ => exact nomatch h
  · exact nomatch h

theorem framing_of_closing {p : Path} {x : Label runner} (hplace : x.place = p)
    (h : isClosing x = true) : Framing p x := by
  refine ⟨hplace, ?_⟩
  rcases x with ⟨⟨q, call⟩, r⟩ | _
  · cases call with
    | drain which => rfl
    | _ => exact nomatch h
  · exact nomatch h

theorem framing_of_started {p : Path} {x : Label runner} (hplace : x.place = p)
    (h : isStarted x = true) : Framing p x := by
  refine ⟨hplace, ?_⟩
  rcases x with ⟨⟨q, call⟩, r⟩ | _
  · cases call with
    | emit event =>
        have hkind : event.kind = .stepStarted := of_decide_eq_true h
        simp [isFraming, hkind]
    | _ => cases h
  · cases h

/-- References neither start a step nor look at its events. -/
theorem references_plain {p : Path} {idx : Nat} {refs : List (String × String)}
    {done : List TraceEvent} {record : Record} (h : Emits p done record)
    (hdone : done <+: refs.map fun r => variableReferenced idx r.1 r.2) {x : Label runner}
    (hx : x ∈ record) : isClosing x = false ∧ isStarted x = false := by
  obtain ⟨event, hevent, r, rfl⟩ := h.mem hx
  obtain ⟨ref, -, rfl⟩ := List.mem_map.mp (hdone.subset hevent)
  exact ⟨rfl, rfl⟩

/-- What follows the assertions takes no buffer and starts no step. -/
theorem completeStep_tail {p : Path} {idx : Nat} {step : Runner.StepDef}
    {result : Except RunError Unit}
    {record : Record} {passed : List Emitted} {rest : Run}
    (h : (completeStep p idx step result).Runs
      (.did ⟨p, .drain (.closing step)⟩ passed :: record) rest) :
    ∀ x ∈ record, isClosing x = false ∧ isStarted x = false := by
  rcases Runs.ask h with ⟨heq, -⟩ | ⟨events, record', heq, hrest⟩
  · exact nomatch heq
  · obtain ⟨hdid, rfl⟩ := List.cons.inj heq
    refine hrest.within (P := fun x => isClosing x = false ∧ isStarted x = false) ?_
    refine emitIgnored_within ?_ ?_
    · intro e he r
      obtain ⟨result, -, rfl⟩ := List.mem_map.mp he
      refine ⟨rfl, decide_eq_false ?_⟩
      show (if result.passed then EventKind.assertionPassed else .assertionFailed) ≠ .stepStarted
      split
      · exact nofun
      · exact nofun
    · cases result with
      | error e =>
          refine emitIgnored_within (fun event he r => ?_) .ret
          rw [List.mem_singleton.mp he]
          exact ⟨rfl, rfl⟩
      | ok a =>
          show Within _ (if _ then _ else _)
          split
          · exact emit_within (fun _ => ⟨rfl, rfl⟩) .ret
          · exact emit_within (fun _ => ⟨rfl, rfl⟩) .ret

/-- What a run of `run_step` records between `StepStarted` and the drain for its assertions. -/
inductive Inside (p : Path) (idx : Nat) (step : Runner.StepDef) : Record → Prop where
  | intro {s vars resolved refs references record result}
      (hsub : substituteInValue step.substituted vars = .ok (resolved, refs))
      (hemits : Emits p (refs.map fun r => variableReferenced idx r.1 r.2) references)
      (hruns : (Runner.executeStep step p resolved).Runs record (.ret result)) :
      Inside p idx step (.did ⟨p, .drain .started⟩ s ::
        .did ⟨p, .snapshot step.substituted⟩ vars :: (references ++ record))

theorem header_not_closing {p : Path} {idx : Nat} {step : Runner.StepDef} {o s : List Emitted}
    {x : Label runner} (hx : x ∈ header p idx step o s) : isClosing x = false := by
  simp only [header, List.mem_cons, List.not_mem_nil, or_false] at hx
  rcases hx with rfl | rfl | rfl
  · rfl
  · rfl
  · rfl

/-- Only an execution that has come to an end has drained the buffer for its assertions. -/
theorem StepRun.closing_of_mem {p : Path} {idx : Nat} {step : Runner.StepDef} {record : Record}
    {rest : Run}
    (h : StepRun p idx step record rest) {x : Label runner} (hx : x ∈ record)
    (hplace : x.place = p) (hclosing : isClosing x = true) :
    ∃ o s vars resolved refs references exec result passed tail,
      substituteInValue step.substituted vars = .ok (resolved, refs) ∧
      Emits p (refs.map fun r => variableReferenced idx r.1 r.2) references ∧
      (Runner.executeStep step p resolved).Runs exec (.ret result) ∧
      (∀ y ∈ tail, isClosing y = false ∧ isStarted y = false) ∧
      record = header p idx step o s ++ .did ⟨p, .snapshot step.substituted⟩ vars ::
        (references ++ exec ++ .did ⟨p, .drain (.closing step)⟩ passed :: tail) := by
  have hframing := framing_of_closing hplace hclosing
  have hheader : ∀ {o s}, x ∉ header p idx step o s := by
    intro o s hx
    rw [header_not_closing hx] at hclosing
    exact nomatch hclosing
  have hsnapshot : ∀ {vars}, x ≠ .did ⟨p, .snapshot step.substituted⟩ vars := by
    rintro vars rfl
    exact nomatch hclosing
  cases h with
  | starting hinitial _ => exact absurd (hinitial.subset hx) hheader
  | unwritten =>
      rcases List.mem_cons.mp hx with rfl | hx
      · exact nomatch hclosing
      · obtain rfl := List.mem_singleton.mp hx
        exact nomatch hclosing
  | unresolved _ =>
      rcases List.mem_append.mp hx with hx | hx
      · exact absurd hx hheader
      · exact absurd (List.mem_singleton.mp hx) hsnapshot
  | referencing _ hinitial hemits _ =>
      rcases List.mem_append.mp hx with hx | hx
      · exact absurd hx hheader
      · rcases List.mem_cons.mp hx with hx | hx
        · exact absurd hx hsnapshot
        · rw [(references_plain hemits hinitial hx).1] at hclosing
          exact nomatch hclosing
  | executing _ hemits hruns _ =>
      rcases List.mem_append.mp hx with hx | hx
      · exact absurd hx hheader
      · rcases List.mem_cons.mp hx with hx | hx
        · exact absurd hx hsnapshot
        · rcases List.mem_append.mp hx with hx | hx
          · rw [(references_plain hemits (List.prefix_refl _) hx).1] at hclosing
            exact nomatch hclosing
          · exact absurd hframing (hruns.within (executeStep_inner step _ _) x hx).not_framing
  | @closing o s vars resolved refs references exec result passed tail rest hsub hemits hruns
      htail =>
      exact ⟨o, s, vars, resolved, refs, references, exec, result, passed, tail, hsub, hemits,
        hruns, completeStep_tail htail, rfl⟩

/-- A run of `run_step` that has drained the buffer for the assertions has one `StepStarted`
and one such drain at its path. -/
theorem inside_of_runs {q : Path} {idx : Nat} {step step' : Runner.StepDef} {kind : String}
    {before mid after : Record} {r : Except RunError Unit} {passed : List Emitted} {rest : Run}
    (h : (Runner.runStep q idx step').Runs
      (before ++ .did ⟨.step idx :: q, .emit (stepStarted idx kind)⟩ r ::
        (mid ++ .did ⟨.step idx :: q, .drain (.closing step)⟩ passed :: after)) rest) :
    step' = step ∧ Inside (.step idx :: q) idx step mid := by
  obtain ⟨o, s, vars, resolved, refs, references, exec, result, passed', tail, hsub, hemits, hruns,
    htail, hrecord⟩ := (stepRun_of_runs h).closing_of_mem
      (List.mem_append_right _ (List.mem_cons_of_mem _ List.mem_append_cons_self)) rfl rfl
  have hexec : ∀ x ∈ exec, ¬ Framing (.step idx :: q) x := fun x hx =>
    (hruns.within (executeStep_inner step' _ _) x hx).not_framing
  have hrefs : ∀ x ∈ references, isClosing x = false ∧ isStarted x = false := fun x hx =>
    references_plain hemits (List.prefix_refl _) hx
  have hstarted := split_unique
    (Q := fun x => Label.place x = .step idx :: q ∧ isStarted x = true)
    (c := [Label.did (S := runner) ⟨.step idx :: q, .drain .opening⟩ o]) hrecord ⟨rfl, rfl⟩ ?_ ?_
  · obtain ⟨-, -, hlater⟩ := hstarted
    have hclosing := split_unique
      (Q := fun x => Label.place x = .step idx :: q ∧ isClosing x = true)
      (c := Label.did (S := runner) ⟨.step idx :: q, .drain .started⟩ s ::
        .did ⟨.step idx :: q, .snapshot step'.substituted⟩ vars :: (references ++ exec))
      hlater ⟨rfl, rfl⟩ ?_ ?_
    · obtain ⟨hmid, hdid, -⟩ := hclosing
      have hstep : step' = step := by
        injection hdid with hrequest
        injection hrequest with hpath hcall
        injection hcall with hdrain
        injection hdrain with hstep
        exact hstep.symm
      subst hstep
      refine ⟨rfl, ?_⟩
      rw [hmid]
      exact .intro hsub hemits hruns
    · rintro x hx ⟨hplace, hclosing⟩
      rcases List.mem_cons.mp hx with rfl | hx
      · exact nomatch hclosing
      · rcases List.mem_cons.mp hx with rfl | hx
        · exact nomatch hclosing
        · rcases List.mem_append.mp hx with hx | hx
          · rw [(hrefs x hx).1] at hclosing
            exact nomatch hclosing
          · exact hexec x hx (framing_of_closing hplace hclosing)
    · rintro x hx ⟨-, hclosing⟩
      rw [(htail x hx).1] at hclosing
      exact nomatch hclosing
  · rintro x hx ⟨-, hstarted⟩
    obtain rfl := List.mem_singleton.mp hx
    exact nomatch hstarted
  · rintro x hx ⟨hplace, hstarted⟩
    rcases List.mem_cons.mp hx with rfl | hx
    · exact nomatch hstarted
    · rcases List.mem_cons.mp hx with rfl | hx
      · exact nomatch hstarted
      · rcases List.mem_append.mp hx with hx | hx
        · rcases List.mem_append.mp hx with hx | hx
          · rw [(hrefs x hx).2] at hstarted
            exact nomatch hstarted
          · exact hexec x hx (framing_of_started hplace hstarted)
        · rcases List.mem_cons.mp hx with rfl | hx
          · exact nomatch hstarted
          · rw [(htail x hx).2] at hstarted
            exact nomatch hstarted

/-! ## Evaluations -/

/-- In a run of a scenario, the assertions of `step` have been evaluated on `passed` by the
execution at `.step idx :: q`; `window` is what was recorded since its `StepStarted`. -/
structure Evaluates (files : Files) (scenario : Scenario) (events : List OwnEvent) (vars : VarStore)
    (q : Path) (idx : Nat) (step : Runner.StepDef) (window : Record) (passed : List Emitted) :
      Prop where
  run : ∃ before r after rest, ScenarioRun files scenario events vars
    (before ++ .did ⟨.step idx :: q, .emit (stepStarted idx step.kindStr)⟩ r ::
      (window ++ .did ⟨.step idx :: q, .drain (.closing step)⟩ passed :: after)) rest

/-- Where a scenario and its workers are. -/
theorem program_stays (files : Files) (scenario : Scenario) (events : List OwnEvent) :
    Stays (fun r => AtOrBelow root r ∨ r = [.workers] ∨ r = [])
      (program files scenario events) := by
  refine .join (Or.inr (Or.inr rfl)) ?_ fun _ => .ret
  intro c hc
  rcases List.mem_cons.mp hc with rfl | hc
  · exact (runScenario_stays files scenario).imp fun r hr => Or.inl hr
  · rw [List.mem_singleton.mp hc]
    exact emitIgnored_stays (Or.inr (Or.inl rfl)) .ret

/-- The executions of a run are below its scenario. -/
theorem root_above {files : Files} {scenario : Scenario} {events : List OwnEvent} {record : Record}
    {rest : Run} {q : Path} {idx : Nat} (h : (program files scenario events).Runs record rest)
    {x : Label runner} (hx : x ∈ record) (hplace : x.place = .step idx :: q) :
      AtOrBelow root q := by
  have hstays := h.within (program_stays files scenario events) x hx
  rw [hplace] at hstays
  rcases hstays with hbelow | heq | heq
  · rcases List.suffix_cons_iff.mp hbelow with heq | hq
    · exact nomatch (List.cons.inj heq).1
    · exact hq
  · exact nomatch (List.cons.inj heq).1
  · exact nomatch heq

section

variable {files : Files} {scenario : Scenario} {events : List OwnEvent} {vars : VarStore} {q : Path}
  {idx : Nat} {step : Runner.StepDef} {window : Record} {passed : List Emitted}

theorem Evaluates.inside (h : Evaluates files scenario events vars q idx step window passed) :
    Inside (.step idx :: q) idx step (recordAt (AtOrBelow (.step idx :: q)) window) := by
  obtain ⟨before, r, after, rest, hrun⟩ := h.run
  have hself : AtOrBelow (.step idx :: q) (.step idx :: q) := List.suffix_refl _
  have hq := root_above hrun.runs (List.mem_append_right _ List.mem_cons_self) rfl
  obtain ⟨step', hstep⟩ := locates_of_mem hrun.runs (List.mem_append_right _ List.mem_cons_self) hq
    hself
  obtain ⟨rest', hruns, -⟩ := local_run hrun.runs hstep
    ⟨_, List.mem_append_right _ List.mem_cons_self, hself⟩
  rw [recordAt_append, recordAt_cons (x := .did _ _) hself, recordAt_append,
    recordAt_cons (x := .did _ _) hself] at hruns
  exact (inside_of_runs hruns).2

/-- Once it has been drained, what was in the buffer before makes no difference. -/
theorem foldl_bufferStep_of_drain {mid : Record} {buffer : List Emitted}
    (h : ∃ x ∈ mid, isDrain x = true) : mid.foldl bufferStep buffer = mid.foldl bufferStep [] := by
  obtain ⟨x, hx, hdrain⟩ := h
  obtain ⟨a, b, rfl⟩ := List.append_of_mem hx
  rw [List.foldl_append, List.foldl_append, List.foldl_cons, List.foldl_cons,
    bufferStep_drain hdrain, bufferStep_drain hdrain]

/-- The assertions see what the window has left in the buffer. -/
theorem Evaluates.passed_eq (h : Evaluates files scenario events vars q idx step window passed) :
    passed = window.foldl bufferStep [] := by
  have hdrain : ∃ x ∈ window, isDrain x = true := by
    generalize hl : recordAt (AtOrBelow (.step idx :: q)) window = l
    have hinside := h.inside
    rw [hl] at hinside
    cases hinside with
    | @intro s _ _ _ _ _ _ _ _ _ =>
        have hmem : Label.did (S := runner) ⟨.step idx :: q, .drain .started⟩ s ∈
            recordAt (AtOrBelow (.step idx :: q)) window := hl ▸ List.mem_cons_self
        exact ⟨_, (mem_recordAt.mp hmem).1, rfl⟩
  obtain ⟨before, r, after, rest, hrun⟩ := h.run
  have hpassed : passed = buffered (before ++ .did ⟨.step idx :: q,
      .emit (stepStarted idx step.kindStr)⟩ r :: window) :=
    hrun.answered _ after ⟨.step idx :: q, .drain (.closing step)⟩ passed
      (by rw [List.append_assoc, List.cons_append])
  rw [hpassed, buffered, List.foldl_append, List.foldl_cons]
  exact foldl_bufferStep_of_drain hdrain

/-- Whose event it is. -/
def ownTo (p : Path) (e : Emitted) : Bool := AtOrBelow p e.path

theorem emissions_recordAt {p : Path} {l : Record} :
    emissions (recordAt (AtOrBelow p) l) = (emissions l).filter (ownTo p) := by
  induction l with
  | nil => rfl
  | cons x l ih =>
      have hplace : ∀ e, emitted x = some e → e.path = x.place := by
        intro e he
        rcases x with ⟨⟨r, call⟩, b⟩ | _
        · cases call with
          | emit event =>
              obtain rfl := Option.some.inj he
              rfl
          | _ => exact nomatch he
        · exact nomatch he
      rw [emissions_cons, List.filter_append, ← ih]
      by_cases hbelow : AtOrBelow p x.place
      · rw [recordAt_cons hbelow, emissions_cons]
        congr 1
        rcases he : emitted x with _ | e
        · rfl
        · refine (List.filter_eq_self.mpr fun e' he' => ?_).symm
          rw [Option.mem_toList.mp he' |> Option.some.inj |>.symm, ownTo, hplace e he]
          exact decide_eq_true hbelow
      · rw [recordAt_cons_away hbelow]
        rcases he : emitted x with _ | e
        · rfl
        · have hnot : ownTo p e = false := by
            rw [ownTo, hplace e he]
            exact decide_eq_false hbelow
          rw [Option.toList_some, List.filter_cons_of_neg (by rw [hnot]; exact Bool.false_ne_true)]
          rfl

/-- When a step below starts, the execution has emitted an event already. -/
theorem Inside.emits_before_nested {p : Path} {a b : Record} {x : Label runner}
    (h : Inside p idx step (recordAt (AtOrBelow p) (a ++ x :: b))) (hdrain : isDrain x = true)
    (hbelow : AtOrBelow p x.place) (hne : x.place ≠ p) : (emissions a).filter (ownTo p) ≠ [] := by
  rw [recordAt_append, recordAt_cons hbelow] at h
  generalize hl : recordAt (AtOrBelow p) a ++ x :: recordAt (AtOrBelow p) b = l at h
  cases h with
  | @intro s vars resolved refs references exec result hsub hemits hruns =>
      have hlater : x ∉ Label.did (S := runner) ⟨p, .drain .started⟩ s ::
          .did ⟨p, .snapshot step.substituted⟩ vars :: references := by
        intro hx
        rcases List.mem_cons.mp hx with rfl | hx
        · exact hne rfl
        · rcases List.mem_cons.mp hx with rfl | hx
          · exact hne rfl
          · obtain ⟨event, -, r, rfl⟩ := hemits.mem hx
            exact hne rfl
      rcases executeStep_emits_first hruns with hno | ⟨event, r, exec, rfl⟩
      · have hx : x ∈ references ++ exec := by
          have hx : x ∈ Label.did (S := runner) ⟨p, .drain .started⟩ s ::
              .did ⟨p, .snapshot step.substituted⟩ vars :: (references ++ exec) :=
            hl ▸ List.mem_append_cons_self
          rw [← List.cons_append, ← List.cons_append] at hx
          exact List.mem_append_right _ ((List.mem_append.mp hx).resolve_left hlater)
        rcases List.mem_append.mp hx with hx | hx
        · obtain ⟨event, -, r, rfl⟩ := hemits.mem hx
          exact absurd rfl hne
        · rw [hno x hx] at hdrain
          exact nomatch hdrain
      · have hmem : Label.did (S := runner) ⟨p, .emit event⟩ r ∈ recordAt (AtOrBelow p) a := by
          rw [← List.cons_append, ← List.cons_append] at hl
          refine mem_before (y := Label.did (S := runner) ⟨p, .emit event⟩ r) hl hlater ?_
          rintro rfl
          exact hne rfl
        rw [← emissions_recordAt]
        exact List.ne_nil_of_mem (List.mem_filterMap.mpr ⟨_, hmem, rfl⟩)

/-- The execution itself drains the buffer before it emits anything. -/
theorem Inside.no_event_before_own {p : Path} {a b : Record} {x : Label runner}
    (h : Inside p idx step (recordAt (AtOrBelow p) (a ++ x :: b))) (hdrain : isDrain x = true)
    (hplace : x.place = p) : (emissions a).filter (ownTo p) = [] := by
  have hbelow : AtOrBelow p x.place := hplace ▸ List.suffix_refl p
  rw [recordAt_append, recordAt_cons hbelow] at h
  generalize hl : recordAt (AtOrBelow p) a ++ x :: recordAt (AtOrBelow p) b = l at h
  cases h with
  | @intro s vars resolved refs references exec result hsub hemits hruns =>
      have hsplit := split_unique (Q := fun z => Label.place z = p ∧ isDrain z = true) (c := []) hl
        ⟨hplace, hdrain⟩ (fun z hz => nomatch hz) ?_
      · rw [← emissions_recordAt, hsplit.1]
        rfl
      · rintro z hz ⟨hat, hdrain⟩
        rcases List.mem_cons.mp hz with rfl | hz
        · exact nomatch hdrain
        · rcases List.mem_append.mp hz with hz | hz
          · rw [hemits.not_drain hz] at hdrain
            exact nomatch hdrain
          · exact (hruns.within (executeStep_inner step _ _) z hz).not_framing
              ⟨hat, isFraming_of_isDrain hdrain⟩

/-- Where an evaluation is in the record of a run. -/
theorem evaluates_of_getElem {record : Record} {rest : Run} {i n : Nat} {r : Except RunError Unit}
    (hrun : ScenarioRun files scenario events vars record rest)
    (hstarted : record[i]? =
      some (.did ⟨.step idx :: q, .emit (stepStarted idx step.kindStr)⟩ r))
    (hclosing : (record.drop (i + 1))[n]? =
      some (.did ⟨.step idx :: q, .drain (.closing step)⟩ passed)) :
    Evaluates files scenario events vars q idx step ((record.drop (i + 1)).take n) passed := by
  have hwindow := split_of_getElem hclosing
  have hrecord := split_of_getElem hstarted
  rw [hwindow] at hrecord
  exact ⟨⟨_, r, _, rest, hrecord ▸ hrun⟩⟩

/-! ## Control steps -/

/-- No step below `p` has been started: `run_step` starts with a drain. -/
def NoNestedStep (p : Path) (window : Record) : Prop :=
  ∀ x ∈ window, isDrain x = true → AtOrBelow p x.place → x.place = p

/-- Whoever drains the buffer, the steps below `p` aside, finds no event of the window in it. -/
def DrainsNothing (p : Path) (window : Record) : Prop :=
  ∀ a x b, window = a ++ x :: b → isDrain x = true → (AtOrBelow p x.place → x.place = p) →
    emissions a = []

/-- **What the assertions of a control step see.** They see every event since `StepStarted`
exactly if the step has started no step of its own, and nobody else has drained an event. -/
theorem container_events_iff
    (h : Evaluates files scenario events vars q idx step window passed) :
    passed = emissions window ↔
      NoNestedStep (.step idx :: q) window ∧ DrainsNothing (.step idx :: q) window := by
  have hinside := h.inside
  rw [h.passed_eq, buffer_complete_iff]
  constructor
  · intro hall
    refine ⟨?_, fun a x b hsplit hdrain _ => hall a x b hsplit hdrain⟩
    intro x hx hdrain hbelow
    by_contra hne
    obtain ⟨a, b, rfl⟩ := List.append_of_mem hx
    refine hinside.emits_before_nested hdrain hbelow hne ?_
    rw [hall a x b rfl hdrain]
    rfl
  · rintro ⟨hnone, hnothing⟩ a x b hsplit hdrain
    exact hnothing a x b hsplit hdrain (hnone x (hsplit ▸ List.mem_append_cons_self) hdrain)

/-- Sleeps no time at all. -/
def sleepNever : Runner.StepDef := sleepTimes 0 none

/-- A run of `sleepNever`, up to its assertions. -/
def sleepNeverRecord : Record :=
  simulated noFiles (scenarioOf [sleepNever]) (fun _ => none) (List.replicate 6 ([0], .ok ()))

/-- Without an iteration there is nothing to miss. -/
theorem sleepNever_complete :
    NoNestedStep [.step 0, .scenario] ((sleepNeverRecord.drop 3).take 2) ∧
      DrainsNothing [.step 0, .scenario] ((sleepNeverRecord.drop 3).take 2) := by
  have hrun : ScenarioRun noFiles (scenarioOf [sleepNever]) [] (fun _ => none) sleepNeverRecord _ :=
    simulated_run (by decide +kernel)
  exact (container_events_iff (evaluates_of_getElem hrun (r := .ok ()) rfl rfl)).mp rfl

/-- Sleeps once, and asks for an event that every iteration starts with. -/
def sleepOnce : Runner.StepDef :=
  sleepTimes 1 (some ⟨none, some ["repeat_iteration_started"], none⟩)

/-- A run of `sleepOnce`, up to its assertions. -/
def sleepOnceRecord : Record :=
  simulated noFiles (scenarioOf [sleepOnce]) (fun _ => none) (List.replicate 15 ([0], .ok ()))

/-- The nested step has drained the event away, and the assertion fails. -/
theorem container_misses_events : ∃ window passed,
    Evaluates noFiles (scenarioOf [sleepOnce]) [] (fun _ => none) root 0 sleepOnce window passed ∧
      passed ≠ emissions window ∧
      (assertionResults sleepOnce passed).all AssertionResult.passed = false ∧
      (assertionResults sleepOnce (emissions window)).all AssertionResult.passed = true := by
  have hrun : ScenarioRun noFiles (scenarioOf [sleepOnce]) [] (fun _ => none) sleepOnceRecord _ :=
    simulated_run (by decide +kernel)
  refine ⟨(sleepOnceRecord.drop 3).take 11, buffered (sleepOnceRecord.take 14),
    evaluates_of_getElem hrun (r := .ok ()) rfl rfl, ?_, ?_, ?_⟩
  · intro h
    have hlength := congrArg List.length h
    revert hlength
    decide +kernel
  · decide +kernel
  · decide +kernel

/-! ## Steps of a branch -/

/-- The events of the execution at `p`. -/
def ownEvents (p : Path) (window : Record) : List Emitted := (emissions window).filter (ownTo p)

/-- Nobody but the execution at `p` has drained an event of its. -/
def KeepsOwn (p : Path) (window : Record) : Prop :=
  ∀ a x b, window = a ++ x :: b → isDrain x = true → ¬ AtOrBelow p x.place → ownEvents p a = []

/-- What others emit has been drained. -/
def LosesOthers (p : Path) (window : Record) : Prop :=
  ∀ a x b e, window = a ++ x :: b → emitted x = some e → ¬ AtOrBelow p e.path →
    ∃ y ∈ b, isDrain y = true

/-- No step below has been started, and no other branch takes or leaves an event. -/
structure Undisturbed (p : Path) (window : Record) : Prop where
  alone : NoNestedStep p window
  keeps : KeepsOwn p window
  loses : LosesOthers p window

theorem own_events_iff (h : Evaluates files scenario events vars q idx step window passed) :
    passed = ownEvents (.step idx :: q) window ↔ Undisturbed (.step idx :: q) window := by
  have hinside := h.inside
  rw [h.passed_eq, ownEvents, buffer_own_iff]
  constructor
  · rintro ⟨hown, hforeign⟩
    refine ⟨?_, fun a x b hsplit hdrain _ => hown a x b hsplit hdrain, ?_⟩
    · intro x hx hdrain hbelow
      by_contra hne
      obtain ⟨a, b, rfl⟩ := List.append_of_mem hx
      exact hinside.emits_before_nested hdrain hbelow hne (hown a x b rfl hdrain)
    · intro a x b e hsplit he hnot
      exact hforeign a x b e hsplit he (decide_eq_false hnot)
  · rintro ⟨halone, hkeeps, hloses⟩
    refine ⟨?_, fun a x b e hsplit he hnot => hloses a x b e hsplit he (of_decide_eq_false hnot)⟩
    intro a x b hsplit hdrain
    by_cases hbelow : AtOrBelow (.step idx :: q) x.place
    · have hplace := halone x (hsplit ▸ List.mem_append_cons_self) hdrain hbelow
      rw [hsplit] at hinside
      exact hinside.no_event_before_own hdrain hplace
    · exact hkeeps a x b hsplit hdrain hbelow

/-- **What the assertions of a step see next to other branches.** They see the events of that
step and no others exactly if it is undisturbed, and then their results are the same whatever
the other branches do. -/
theorem branch_assertions_iff
    (h : Evaluates files scenario events vars q idx step window passed) :
    (passed = ownEvents (.step idx :: q) window ↔ Undisturbed (.step idx :: q) window) ∧
      ∀ window' passed', Evaluates files scenario events vars q idx step window' passed' →
        Undisturbed (.step idx :: q) window → Undisturbed (.step idx :: q) window' →
        ownEvents (.step idx :: q) window' = ownEvents (.step idx :: q) window →
        assertionResults step passed' = assertionResults step passed := by
  refine ⟨own_events_iff h, ?_⟩
  intro window' passed' h' hquiet hquiet' hown
  rw [(own_events_iff h).mpr hquiet, (own_events_iff h').mpr hquiet', hown]

/-- The branch of `expectant` goes first. -/
def inTurn : Record :=
  simulated noFiles sideBySide (fun _ => none)
    (List.replicate 6 ([0], .ok ()) ++ List.replicate 8 ([0, 0], .ok ()))

/-- The other branch starts its step while `expectant` sleeps. -/
def interleaved : Record :=
  simulated noFiles sideBySide (fun _ => none)
    (List.replicate 6 ([0], .ok ()) ++ List.replicate 5 ([0, 0], .ok ()) ++
      List.replicate 4 ([0, 1], .ok ()) ++ List.replicate 3 ([0, 0], .ok ()))

/-- Nobody disturbs the branch that goes first. -/
theorem inTurn_undisturbed :
    Undisturbed [.step 0, .branch 0, .step 0, .scenario] ((inTurn.drop 10).take 3) := by
  have hrun : ScenarioRun noFiles sideBySide [] (fun _ => none) inTurn _ :=
    simulated_run (by decide +kernel)
  exact (branch_assertions_iff (evaluates_of_getElem hrun (r := .ok ()) rfl rfl)).1.mp rfl

/-- The event of another branch is counted, and the assertion passes because of it. -/
theorem branch_counts_foreign_event : ∃ window window' passed passed',
    Evaluates noFiles sideBySide [] (fun _ => none) [.branch 0, .step 0, .scenario] 0 expectant
      window passed ∧
    Evaluates noFiles sideBySide [] (fun _ => none) [.branch 0, .step 0, .scenario] 0 expectant
      window' passed' ∧
    ownEvents [.step 0, .branch 0, .step 0, .scenario] window' =
      ownEvents [.step 0, .branch 0, .step 0, .scenario] window ∧
    passed' ≠ ownEvents [.step 0, .branch 0, .step 0, .scenario] window' ∧
    (assertionResults expectant passed).all AssertionResult.passed = false ∧
    (assertionResults expectant passed').all AssertionResult.passed = true := by
  have hturn : ScenarioRun noFiles sideBySide [] (fun _ => none) inTurn _ :=
    simulated_run (by decide +kernel)
  have hinter : ScenarioRun noFiles sideBySide [] (fun _ => none) interleaved _ :=
    simulated_run (by decide +kernel)
  refine ⟨(inTurn.drop 10).take 3, (interleaved.drop 10).take 7, buffered (inTurn.take 13),
    buffered (interleaved.take 17), evaluates_of_getElem hturn (r := .ok ()) rfl rfl,
    evaluates_of_getElem hinter (r := .ok ()) rfl rfl, rfl, ?_, ?_, ?_⟩
  · intro h
    have hlength := congrArg List.length h
    revert hlength
    decide +kernel
  · decide +kernel
  · decide +kernel

end

end ConformanceHarness.Proof
