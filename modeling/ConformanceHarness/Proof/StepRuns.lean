import ConformanceHarness.Proof.Executions

/-!
# What one execution records

The runs of `run_step`, phase by phase: the two drains around `StepStarted`, the snapshot
of the variables, what the step does, and the drain its assertions look at. `StepRun` says
everything such a run can be, so that nobody else needs to look into `run_step`.
-/

namespace ConformanceHarness.Proof

open Lib Future Runner

/-! ## Emitting -/

section

variable {p : Path} {k rest : Run} {record : Record}

/-- An event that has to be written is waiting, has failed the future, or is behind it. -/
theorem emit_runs {event : TraceEvent} (h : (emit p event k).Runs record rest) :
    (record = [] ∧ rest.finished = false) ∨
      (∃ e, record = [.did ⟨p, .emit event⟩ (.error e)] ∧ rest = fail e) ∨
      ∃ record', record = .did ⟨p, .emit event⟩ (.ok ()) :: record' ∧ k.Runs record' rest := by
  rcases Runs.ask h with ⟨rfl, rfl⟩ | ⟨b, record', rfl, hrest⟩
  · exact Or.inl ⟨rfl, rfl⟩
  · right
    cases b with
    | error e =>
        obtain ⟨rfl, rfl⟩ := Runs.ret hrest
        exact Or.inl ⟨e, rfl, rfl⟩
    | ok a => exact Or.inr ⟨record', rfl, hrest⟩

/-- Entries that emit these events, in this order, at one path. -/
def Emits (p : Path) (events : List TraceEvent) (record : Record) : Prop :=
  List.Forall₂ (fun event x => ∃ r, x = .did ⟨p, .emit event⟩ r) events record

theorem Emits.emissions {events : List TraceEvent} (h : Emits p events record) :
    emissions record = events.map fun event => ⟨p, event⟩ := by
  induction h with
  | nil => rfl
  | cons hx _ ih =>
      obtain ⟨r, rfl⟩ := hx
      exact congrArg (_ :: ·) ih

theorem Emits.mem {events : List TraceEvent} (h : Emits p events record) {x : Label runner}
    (hx : x ∈ record) : ∃ event ∈ events, ∃ r, x = .did ⟨p, .emit event⟩ r := by
  induction h with
  | nil => exact nomatch hx
  | cons hy _ ih =>
      rcases List.mem_cons.mp hx with rfl | hx
      · exact ⟨_, List.mem_cons_self, hy⟩
      · obtain ⟨event, hevent, hr⟩ := ih hx
        exact ⟨event, List.mem_cons_of_mem _ hevent, hr⟩

/-- Events that need not be written are on their way, or behind the future. -/
theorem emitIgnored_runs {events : List TraceEvent}
    (h : (emitIgnored p events k).Runs record rest) :
    ((∃ done, done <+: events ∧ Emits p done record) ∧ rest.finished = false) ∨
      ∃ l₁ l₂, record = l₁ ++ l₂ ∧ Emits p events l₁ ∧ k.Runs l₂ rest := by
  induction events generalizing record with
  | nil => exact Or.inr ⟨[], record, rfl, .nil, h⟩
  | cons event events ih =>
      rcases Runs.ask h with ⟨rfl, rfl⟩ | ⟨b, record', rfl, hrest⟩
      · exact Or.inl ⟨⟨[], List.nil_prefix, .nil⟩, rfl⟩
      · rcases ih hrest with ⟨⟨done, hinitial, hemits⟩, hfin⟩ | ⟨l₁, l₂, rfl, hemits, hk⟩
        · exact Or.inl ⟨⟨event :: done, List.cons_prefix_cons.mpr ⟨rfl, hinitial⟩,
            .cons ⟨b, rfl⟩ hemits⟩, hfin⟩
        · exact Or.inr ⟨_ :: l₁, l₂, rfl, .cons ⟨b, rfl⟩ hemits, hk⟩

end

/-! ## The phases of `run_step` -/

/-- The entries before the snapshot, if nothing goes wrong. -/
def header (p : Path) (idx : Nat) (step : Runner.StepDef) (opening started : List Emitted) :
    Record :=
  [.did ⟨p, .drain .opening⟩ opening, .did ⟨p, .emit (stepStarted idx step.kindStr)⟩ (.ok ()),
    .did ⟨p, .drain .started⟩ started]

/-- What a run of `run_step` at `p` has recorded, and what is left of it. -/
inductive StepRun (p : Path) (idx : Nat) (step : Runner.StepDef) : Record → Run → Prop where
  | starting {record rest o s} (hinitial : record <+: header p idx step o s)
      (hrest : rest.finished = false) : StepRun p idx step record rest
  | unwritten {o e} : StepRun p idx step
      [.did ⟨p, .drain .opening⟩ o, .did ⟨p, .emit (stepStarted idx step.kindStr)⟩ (.error e)]
      (fail e)
  | unresolved {o s vars f e} (hsub : substituteInValue step.substituted vars = .error f) :
      StepRun p idx step
        (header p idx step o s ++ [.did ⟨p, .snapshot step.substituted⟩ vars]) (fail e)
  | referencing {o s vars resolved refs done record rest}
      (hsub : substituteInValue step.substituted vars = .ok (resolved, refs))
      (hinitial : done <+: refs.map fun r => variableReferenced idx r.1 r.2)
      (hemits : Emits p done record) (hrest : rest.finished = false) :
      StepRun p idx step
        (header p idx step o s ++ .did ⟨p, .snapshot step.substituted⟩ vars :: record) rest
  | executing {o s vars resolved refs references record body rest}
      (hsub : substituteInValue step.substituted vars = .ok (resolved, refs))
      (hemits : Emits p (refs.map fun r => variableReferenced idx r.1 r.2) references)
      (hruns : (Runner.executeStep step p resolved).Runs record body)
      (hrest : rest.finished = false) :
      StepRun p idx step
        (header p idx step o s ++
          .did ⟨p, .snapshot step.substituted⟩ vars :: (references ++ record)) rest
  | closing {o s vars resolved refs references record result passed tail rest}
      (hsub : substituteInValue step.substituted vars = .ok (resolved, refs))
      (hemits : Emits p (refs.map fun r => variableReferenced idx r.1 r.2) references)
      (hruns : (Runner.executeStep step p resolved).Runs record (.ret result))
      (htail : (completeStep p idx step result).Runs
        (.did ⟨p, .drain (.closing step)⟩ passed :: tail) rest) :
      StepRun p idx step
        (header p idx step o s ++ .did ⟨p, .snapshot step.substituted⟩ vars ::
          (references ++ record ++ .did ⟨p, .drain (.closing step)⟩ passed :: tail)) rest

theorem finished_bind {t : Run} {f : Except RunError Unit → Run}
    (h : ∀ r, (f r).finished = false) : (t.bind f).finished = false := by
  cases t with
  | ret r => exact h r
  | ask i k => rfl
  | join p branches k => rfl

/-- **The phases of `run_step`.** -/
theorem stepRun_of_runs {q : Path} {idx : Nat} {step : Runner.StepDef} {record : Record}
    {rest : Run}
    (h : (Runner.runStep q idx step).Runs record rest) :
    StepRun (.step idx :: q) idx step record rest := by
  rcases Runs.ask h with ⟨rfl, rfl⟩ | ⟨o, record, rfl, h₁⟩
  · exact .starting (o := []) (s := []) List.nil_prefix rfl
  rcases emit_runs h₁ with ⟨rfl, hfin⟩ | ⟨e, rfl, rfl⟩ | ⟨record, rfl, h₂⟩
  · exact .starting (o := o) (s := []) (List.cons_prefix_cons.mpr ⟨rfl, List.nil_prefix⟩) hfin
  · exact .unwritten
  rcases Runs.ask h₂ with ⟨rfl, rfl⟩ | ⟨s, record, rfl, h₃⟩
  · exact .starting (o := o) (s := []) (List.prefix_append _ [_]) rfl
  rcases Runs.ask h₃ with ⟨rfl, rfl⟩ | ⟨vars, record, rfl, h₄⟩
  · exact .starting (o := o) (s := s) (List.prefix_refl _) rfl
  rcases hsub : substituteInValue step.substituted vars with f | ⟨resolved, refs⟩
  · simp only [hsub] at h₄
    obtain ⟨rfl, rfl⟩ := Runs.ret h₄
    exact .unresolved hsub
  simp only [hsub] at h₄
  rcases emitIgnored_runs h₄ with
    ⟨⟨done, hinitial, hemits⟩, hfin⟩ | ⟨references, l, rfl, hemits, h₅⟩
  · exact .referencing hsub hinitial hemits hfin
  rcases h₅.bind with ⟨body, hruns, rfl⟩ | ⟨result, exec, tail, rfl, hruns, htail⟩
  · exact .executing hsub hemits hruns (finished_bind fun _ => rfl)
  rcases Runs.ask htail with ⟨rfl, rfl⟩ | ⟨passed, tail, rfl, hafter⟩
  · rw [List.append_nil]
    exact .executing hsub hemits hruns rfl
  · rw [← List.append_assoc]
    exact .closing hsub hemits hruns htail

/-! ## What `execute_step` records -/

/-- The calls of `run_step` and their events. -/
def isFraming : Label runner → Bool
  | .did ⟨_, .drain _⟩ _ => true
  | .did ⟨_, .snapshot _⟩ _ => true
  | .did ⟨_, .emit event⟩ _ =>
    match event.kind with
    | .stepStarted => true
    | .stepCompleted => true
    | .variableReferenced => true
    | .assertionPassed => true
    | .assertionFailed => true
    | _ => false
  | _ => false

/-- An entry that `run_step` makes at `p` itself. -/
def Framing (p : Path) (x : Label runner) : Prop := x.place = p ∧ isFraming x = true

/-- At the path of an execution, `execute_step` does nothing that `run_step` does: that is done
by `run_step`, here or below. -/
def Inner (p : Path) (x : Label runner) : Prop :=
  (x.place = p ∧ isFraming x = false) ∨ ∃ s, AtOrBelow (s :: p) x.place

section Inner

variable {p : Path} {k : Run} {P : Label runner → Prop}

theorem Inner.not_framing {x : Label runner} (h : Inner p x) : ¬ Framing p x := by
  rintro ⟨hplace, hframing⟩
  rcases h with ⟨-, hno⟩ | ⟨s, hbelow⟩
  · rw [hno] at hframing
    exact nomatch hframing
  · rw [hplace] at hbelow
    exact not_atOrBelow_self s p hbelow

/-- An event of a step is none of `run_step`. -/
theorem own_not_framing {event : OwnEvent} {r : Except RunError Unit} :
    isFraming (.did ⟨p, .emit event.event⟩ r) = false := by
  rcases event with ⟨⟨kind, _⟩, hown⟩
  revert hown
  cases kind <;> simp [isFraming, isFrameKind]

theorem emit_within {event : TraceEvent} (hemit : ∀ r, P (.did ⟨p, .emit event⟩ r))
    (hk : Within P k) : Within P (emit p event k) := by
  refine .ask hemit ?_
  rintro (_ | _)
  · exact .ret
  · exact hk

theorem play_within {result : Except RunError Unit} {moves : List Move}
    (hemit : ∀ (event : OwnEvent) r, P (.did ⟨p, .emit event.event⟩ r))
    (hset : ∀ name v r, P (.did ⟨p, .setVariable name v⟩ r)) : Within P (play p result moves) := by
  induction moves with
  | nil => exact .ret
  | cons move rest ih =>
      cases move with
      | emit event required =>
          refine .ask (hemit event) ?_
          rintro (_ | _)
          · cases required with
            | true => exact .ret
            | false => exact ih
          · exact ih
      | setVariable name v => exact .ask (hset name v) fun _ => ih

theorem completeParallel_inner {branchCount : Nat} {result : Except RunError Unit} :
    Within (Inner p) (completeParallel p branchCount result) := by
  have hcompleted : ∀ result, Within (Inner p) (emit p (parallelCompleted result) (.ret result)) :=
    fun result => emit_within (fun _ => Or.inl ⟨rfl, rfl⟩) .ret
  have haborted : ∀ {k : Run} (n bi : Nat), Within (Inner p) k →
      Within (Inner p) (emitAborted p k bi n) := by
    intro k n
    induction n with
    | zero => exact fun bi hk => hk
    | succ n ih =>
        intro bi hk
        refine .ask (fun _ => Or.inl ⟨rfl, rfl⟩) fun flags => ?_
        show Within (Inner p) (if _ then _ else _)
        split
        · exact .ask (fun _ => Or.inl ⟨rfl, rfl⟩) fun _ => ih (bi + 1) hk
        · exact ih (bi + 1) hk
  cases result with
  | ok a => exact hcompleted _
  | error e => exact haborted _ _ (hcompleted _)

theorem executeStep_inner (step : Runner.StepDef) (p : Path) (resolved : Value) :
    Within (Inner p) (Runner.executeStep step p resolved) := by
  rw [Runner.executeStep]
  rcases StepParams.fromValue resolved with _ | params
  · exact .ret
  · cases step with
    | leaf kind common =>
        refine .ask (fun _ => Or.inl ⟨rfl, rfl⟩) fun _ => play_within ?_ ?_
        · exact fun _ _ => Or.inl ⟨rfl, own_not_framing⟩
        · exact fun _ _ _ => Or.inl ⟨rfl, rfl⟩
    | «repeat» common body =>
        rcases times resolved with _ | n
        · exact .ret
        · refine Within.loop fun i _ => emit_within ?_ (Within.bind ?_ ?_)
          · exact fun _ => Or.inl ⟨rfl, rfl⟩
          · exact Within.imp (runBody_stays body (.iteration i :: p) 0) fun x ⟨j, _, hx⟩ =>
              Or.inr ⟨.iteration i, (atOrBelow_cons _ _).trans hx⟩
          · rintro (_ | _)
            · exact emit_within (fun _ => Or.inl ⟨rfl, rfl⟩) .ret
            · exact emit_within (fun _ => Or.inl ⟨rfl, rfl⟩) .ret
    | malformedRepeat common error =>
        rcases times resolved with _ | n
        · exact .ret
        · exact .ret
    | parallel common branches =>
        refine emit_within (fun _ => Or.inl ⟨rfl, rfl⟩) ?_
        refine .join (fun _ => Or.inl ⟨rfl, rfl⟩) ?_ fun _ => completeParallel_inner
        intro c hc
        obtain ⟨i, hget⟩ := List.mem_iff_getElem?.mp hc
        exact Within.imp (branchFutures_stays branches p 0 i c hget) fun x hx =>
          Or.inr ⟨.branch (0 + i), hx⟩
    | malformedParallel common error => exact .ret

end Inner

/-- Before a control step starts a step of its own, it has emitted an event. -/
theorem executeStep_emits_first {step : Runner.StepDef} {p : Path} {resolved : Value}
    {record : Record}
    {rest : Run} (h : (Runner.executeStep step p resolved).Runs record rest) :
    (∀ x ∈ record, isDrain x = false) ∨
      ∃ event r record', record = .did ⟨p, .emit event⟩ r :: record' := by
  rw [Runner.executeStep] at h
  rcases hparams : StepParams.fromValue resolved with _ | params
  · simp only [hparams] at h
    obtain ⟨rfl, -⟩ := Runs.ret h
    exact Or.inl fun x hx => absurd hx List.not_mem_nil
  · simp only [hparams] at h
    cases step with
    | leaf kind common =>
        left
        refine h.within (P := fun x => isDrain x = false) (.ask (fun _ => rfl) fun _ => ?_)
        exact play_within (fun _ _ => rfl) fun _ _ _ => rfl
    | «repeat» common body =>
        rcases hn : times resolved with e | n
        · simp only [hn] at h
          obtain ⟨rfl, -⟩ := Runs.ret h
          exact Or.inl fun x hx => absurd hx List.not_mem_nil
        · simp only [hn] at h
          cases n with
          | zero =>
              obtain ⟨rfl, -⟩ := Runs.ret h
              exact Or.inl fun x hx => absurd hx List.not_mem_nil
          | succ n =>
              have hfirst : ∀ {l t}, (iteration p 0 (n + 1)
                  (runBody body (.iteration 0 :: p) 0)).Runs l t →
                  l = [] ∧ t.finished = false ∨
                    ∃ event r l', l = .did ⟨p, .emit event⟩ r :: l' := by
                intro l t hruns
                rcases emit_runs hruns with h | ⟨e, rfl, -⟩ | ⟨l', rfl, -⟩
                · exact Or.inl h
                · exact Or.inr ⟨_, _, _, rfl⟩
                · exact Or.inr ⟨_, _, _, rfl⟩
              rcases h.andThen with ⟨t', hruns, -⟩ | ⟨l₁, l₂, rfl, hruns, -⟩
              · rcases hfirst hruns with ⟨rfl, -⟩ | h
                · exact Or.inl fun x hx => absurd hx List.not_mem_nil
                · exact Or.inr h
              · rcases hfirst hruns with ⟨-, hfin⟩ | ⟨event, r, l', rfl⟩
                · cases hfin
                · exact Or.inr ⟨event, r, l' ++ l₂, rfl⟩
    | malformedRepeat common error =>
        rcases hn : times resolved with e | n
        · simp only [hn] at h
          obtain ⟨rfl, -⟩ := Runs.ret h
          exact Or.inl fun x hx => absurd hx List.not_mem_nil
        · simp only [hn] at h
          obtain ⟨rfl, -⟩ := Runs.ret h
          exact Or.inl fun x hx => absurd hx List.not_mem_nil
    | parallel common branches =>
        rcases emit_runs h with ⟨rfl, -⟩ | ⟨e, rfl, -⟩ | ⟨l', rfl, -⟩
        · exact Or.inl fun x hx => absurd hx List.not_mem_nil
        · exact Or.inr ⟨_, _, _, rfl⟩
        · exact Or.inr ⟨_, _, _, rfl⟩
    | malformedParallel common error =>
        obtain ⟨rfl, -⟩ := Runs.ret h
        exact Or.inl fun x hx => absurd hx List.not_mem_nil

/-! ## What is recorded around `execute_step` -/

section Framing

variable {p : Path} {idx : Nat} {step : Runner.StepDef}

theorem emitIgnored_within {P : Label runner → Prop} {events : List TraceEvent} {k : Run}
    (hemit : ∀ event ∈ events, ∀ r, P (.did ⟨p, .emit event⟩ r)) (hk : Within P k) :
    Within P (emitIgnored p events k) := by
  induction events with
  | nil => exact hk
  | cons event rest ih =>
      refine .ask (hemit event List.mem_cons_self) fun _ => ?_
      exact ih fun e he => hemit e (List.mem_cons_of_mem _ he)

theorem assertionEvent_framing {result : AssertionResult} {r : Except RunError Unit} :
    Framing p (.did ⟨p, .emit (assertionEvent idx result)⟩ r) := by
  refine ⟨rfl, ?_⟩
  rcases hpassed : result.passed with _ | _
  · rw [assertionEvent, hpassed]
    rfl
  · rw [assertionEvent, hpassed]
    rfl

theorem completeStep_framing {result : Except RunError Unit} :
    Within (Framing p) (completeStep p idx step result) := by
  refine .ask (fun _ => ⟨rfl, rfl⟩) fun events => emitIgnored_within ?_ ?_
  · intro event hevent r
    obtain ⟨result, -, rfl⟩ := List.mem_map.mp hevent
    exact assertionEvent_framing
  · cases result with
    | error e =>
        refine emitIgnored_within (fun event hevent r => ?_) .ret
        rw [List.mem_singleton.mp hevent]
        exact ⟨rfl, rfl⟩
    | ok a =>
        show Within (Framing p) (if _ then _ else _)
        split
        · exact emit_within (fun _ => ⟨rfl, rfl⟩) .ret
        · exact emit_within (fun _ => ⟨rfl, rfl⟩) .ret

theorem header_framing {o s : List Emitted} {x : Label runner} (hx : x ∈ header p idx step o s) :
    Framing p x := by
  rcases List.mem_cons.mp hx with rfl | hx
  · exact ⟨rfl, rfl⟩
  · rcases List.mem_cons.mp hx with rfl | hx
    · exact ⟨rfl, rfl⟩
    · rw [List.mem_singleton.mp hx]
      exact ⟨rfl, rfl⟩

theorem references_framing {refs : List (String × String)} {done : List TraceEvent}
    {record : Record} (h : Emits p done record)
    (hdone : done <+: refs.map fun r => variableReferenced idx r.1 r.2) {x : Label runner}
    (hx : x ∈ record) : Framing p x := by
  obtain ⟨event, hevent, r, rfl⟩ := h.mem hx
  obtain ⟨ref, -, rfl⟩ := List.mem_map.mp (hdone.subset hevent)
  exact ⟨rfl, rfl⟩

/-- Up to the execution, everything is a call of `run_step`. -/
theorem before_framing {o s : List Emitted} {vars : VarStore} {l : Record}
    (h : ∀ x ∈ l, Framing p x) :
    ∀ x ∈ header p idx step o s ++ .did ⟨p, .snapshot step.substituted⟩ vars :: l,
      Framing p x := by
  intro x hx
  rcases List.mem_append.mp hx with hx | hx
  · exact header_framing hx
  · rcases List.mem_cons.mp hx with rfl | hx
    · exact ⟨rfl, rfl⟩
    · exact h x hx

/-- What `execute_step` has recorded stands between entries of `run_step`. -/
theorem StepRun.around {record : Record} {rest : Run} (h : StepRun p idx step record rest) :
    ∃ pre exec post resolved body, record = pre ++ exec ++ post ∧ (∀ x ∈ pre, Framing p x) ∧
      (∀ x ∈ post, Framing p x) ∧ (Runner.executeStep step p resolved).Runs exec body := by
  -- if the step has not been executed, there is nothing in between
  have hnone : ∀ {l : Record}, (∀ x ∈ l, Framing p x) → ∃ pre exec post resolved body,
      l = pre ++ exec ++ post ∧ (∀ x ∈ pre, Framing p x) ∧ (∀ x ∈ post, Framing p x) ∧
      (Runner.executeStep step p resolved).Runs exec body :=
    fun {l} hl => ⟨l, [], [], .null, _, by rw [List.append_nil, List.append_nil], hl,
      (fun x hx => nomatch hx), .refl⟩
  cases h with
  | starting hinitial _ => exact hnone fun x hx => header_framing (hinitial.subset hx)
  | unwritten =>
      refine hnone fun x hx => ?_
      rcases List.mem_cons.mp hx with rfl | hx
      · exact ⟨rfl, rfl⟩
      · rw [List.mem_singleton.mp hx]
        exact ⟨rfl, rfl⟩
  | unresolved _ => exact hnone (before_framing fun x hx => nomatch hx)
  | referencing _ hinitial hemits _ =>
      exact hnone (before_framing fun x hx => references_framing hemits hinitial hx)
  | @executing o s vars resolved refs references record body rest _ hemits hruns _ =>
      refine ⟨header p idx step o s ++ .did ⟨p, .snapshot step.substituted⟩ vars :: references,
        record, [], resolved, body, by simp, before_framing fun x hx => ?_, (fun x hx => nomatch hx),
          hruns⟩
      exact references_framing hemits (List.prefix_refl _) hx
  | @closing o s vars resolved refs references record result passed tail rest _ hemits hruns
      htail =>
      refine ⟨header p idx step o s ++ .did ⟨p, .snapshot step.substituted⟩ vars :: references,
        record, .did ⟨p, .drain (.closing step)⟩ passed :: tail, resolved, _, by simp,
        before_framing fun x hx => ?_, htail.within completeStep_framing, hruns⟩
      exact references_framing hemits (List.prefix_refl _) hx

end Framing

end ConformanceHarness.Proof
