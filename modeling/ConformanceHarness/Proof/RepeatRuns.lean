import ConformanceHarness.Lib.Loops
import ConformanceHarness.Proof.Brackets

/-!
# Repeats fail fast

A `repeat` step runs its body again and again, and stops at the first step that fails. Its
iterations are the rounds of a loop, and so are the steps of its body. This module takes the
run of such a step apart along both loops: what every iteration has recorded, which of its
steps have ended and how, and which iteration events are in the trace.
-/

namespace ConformanceHarness.Proof

open Lib Future Runner

/-! ## Ended steps -/

/-- What is recorded at and below this path is a run of the step that has ended so. -/
def StepEnded (record : Record) (q : Path) (idx : Nat) (step : Runner.StepDef)
    (r : Except RunError Unit) : Prop :=
  (Runner.runStep q idx step).Runs (recordAt (AtOrBelow (.step idx :: q)) record) (.ret r)

/-- The first `j` steps of the body at `q` have ended well. -/
def StepsPassed (record : Record) (q : Path) (body : List Runner.StepDef) (j : Nat) : Prop :=
  ∀ m < j, ∀ step, body[m]? = some step → StepEnded record q m step (.ok ())

/-- Nothing has been recorded at this path or below. -/
def Untouched (record : Record) (q : Path) : Prop := ∀ x ∈ record, ¬ AtOrBelow q x.place

/-! ## A body -/

/-- The steps before `j` have ended well, and none behind `j` has been started. -/
structure BodyReached (record : Record) (q : Path) (body : List Runner.StepDef) (j : Nat) :
    Prop where
  passed : StepsPassed record q body j
  later : ∀ m, j < m → Untouched record (.step m :: q)

/-- What a body has recorded, and what is left of it. -/
inductive BodyRun (q : Path) (body : List Runner.StepDef) (record : Record) : Run → Prop where
  | passed (h : BodyReached record q body body.length) : BodyRun q body record (.ret (.ok ()))
  | failed {j step e} (hget : body[j]? = some step) (h : BodyReached record q body j)
      (hfailed : StepEnded record q j step (.error e)) : BodyRun q body record (.ret (.error e))
  | going {j rest} (h : BodyReached record q body j) (hfin : rest.finished = false) :
      BodyRun q body record rest

/-- A step of a body, by its index. -/
def bodyStep (body : List Runner.StepDef) (q : Path) (j : Nat) : Run :=
  match body[j]? with
  | none => .ret (.ok ())
  | some step => Runner.runStep q j step

section

variable {body steps : List Runner.StepDef} {q : Path} {record : Record} {rest : Run}

theorem bodyStep_some {j : Nat} {step : Runner.StepDef} (hget : body[j]? = some step) :
    bodyStep body q j = Runner.runStep q j step := by
  rw [bodyStep, hget]

theorem bodyStep_stays (j : Nat) : Stays (AtOrBelow (.step j :: q)) (bodyStep body q j) := by
  rcases hget : body[j]? with _ | step
  · rw [bodyStep, hget]
    exact .ret
  · rw [bodyStep_some hget]
    exact runStep_stays

/-- The steps of a body are the rounds of a loop. -/
theorem runBody_eq_loop (i : Nat) (htail : ∀ m, steps[m]? = body[i + m]?) :
    runBody steps q i = .loop (bodyStep body q) i steps.length := by
  induction steps generalizing i with
  | nil =>
      rw [runBody]
      rfl
  | cons step rest ih =>
      have hget : body[i]? = some step := (htail 0).symm
      have hrest : ∀ m, rest[m]? = body[i + 1 + m]? := by
        intro m
        rw [show i + 1 + m = i + (m + 1) by omega]
        exact htail (m + 1)
      rw [runBody, ih (i + 1) hrest, List.length_cons, Future.loop, bodyStep_some hget]
      rfl

theorem bodyStep_away (m m' : Nat) (hne : m ≠ m') :
    Stays (fun r => ¬ AtOrBelow (.step m :: q) r) (bodyStep body q m') :=
  (bodyStep_stays m').imp fun _ hr hr' => hne (Seg.step.inj (seg_unique hr' hr))

theorem bodyReached_of_rounds {k : Nat} (h : Rounds (bodyStep body q) 0 k record) :
    BodyReached record q body k := by
  refine ⟨?_, fun m hm => h.away bodyStep_away (Nat.le_of_lt hm)⟩
  intro m hm step hget
  obtain ⟨l, -, hruns, heq⟩ := h.round bodyStep_away (Nat.zero_le m) hm
  rw [StepEnded, heq, recordAt_self (hruns.within (bodyStep_stays m)), ← bodyStep_some hget]
  exact hruns

/-- What has been recorded of a body up to one of its steps. -/
theorem bodyReached_append {k : Nat} {l : Record} {t : Run}
    (h : Rounds (bodyStep body q) 0 k record) (hround : (bodyStep body q k).Runs l t) :
    BodyReached (record ++ l) q body k ∧ recordAt (AtOrBelow (.step k :: q)) (record ++ l) = l := by
  have hlast : ∀ x ∈ l, AtOrBelow (.step k :: q) x.place := hround.within (bodyStep_stays k)
  obtain ⟨hpassed, hlater⟩ := bodyReached_of_rounds h
  refine ⟨⟨?_, ?_⟩, ?_⟩
  · intro m hm step hget
    have hnone : recordAt (S := runner) (AtOrBelow (.step m :: q)) l = [] :=
      recordAt_none (hround.within (bodyStep_away m k (by omega)))
    rw [StepEnded, recordAt_append, hnone, List.append_nil]
    exact hpassed m hm step hget
  · intro m hm x hx
    rcases List.mem_append.mp hx with hx | hx
    · exact hlater m hm x hx
    · exact hround.within (bodyStep_away m k (by omega)) x hx
  · rw [recordAt_append, recordAt_none (h.away bodyStep_away (Nat.le_refl k)), List.nil_append,
      recordAt_self hlast]

/-- **A body ends with the first step that fails.** -/
theorem bodyRun_of_runs (h : (runBody body q 0).Runs record rest) : BodyRun q body record rest := by
  rw [runBody_eq_loop 0 fun m => by rw [Nat.zero_add]] at h
  cases Runs.loop h with
  | returned hrounds =>
      rw [Nat.zero_add] at hrounds
      exact .passed (bodyReached_of_rounds hrounds)
  | failed hk hrounds hround =>
      obtain ⟨hreached, hat⟩ := bodyReached_append hrounds hround
      rw [Nat.zero_add] at hk
      have hget := List.getElem?_eq_getElem hk
      refine .failed hget hreached ?_
      rwa [StepEnded, hat, ← bodyStep_some hget]
  | going _ hrounds hround _ hfin => exact .going (bodyReached_append hrounds hround).1 hfin

theorem BodyRun.reached (h : BodyRun q body record rest) : ∃ j, BodyReached record q body j := by
  cases h with
  | passed h => exact ⟨_, h⟩
  | failed _ h _ => exact ⟨_, h⟩
  | going h _ => exact ⟨_, h⟩

/-! What is known of a path depends only on what is recorded at it and below. -/

variable {record' : Record}

theorem recordAt_below_congr {seg : Seg}
    (heq : recordAt (AtOrBelow q) record' = recordAt (S := runner) (AtOrBelow q) record) :
    recordAt (AtOrBelow (seg :: q)) record' =
      recordAt (S := runner) (AtOrBelow (seg :: q)) record := by
  have hsub : ∀ r, AtOrBelow (seg :: q) r → AtOrBelow q r :=
    fun r hr => (atOrBelow_cons _ _).trans hr
  rw [← recordAt_recordAt (P := AtOrBelow q) hsub, heq, recordAt_recordAt hsub]

theorem Untouched.congr (h : Untouched record q)
    (heq : recordAt (AtOrBelow q) record' = recordAt (S := runner) (AtOrBelow q) record) :
    Untouched record' q := by
  intro x hx hat
  have hmem : x ∈ recordAt (S := runner) (AtOrBelow q) record' := mem_recordAt.mpr ⟨hx, hat⟩
  rw [heq] at hmem
  exact h x (mem_recordAt.mp hmem).1 hat

theorem StepEnded.congr {j : Nat} {step : Runner.StepDef} {r : Except RunError Unit}
    (h : StepEnded record q j step r)
    (heq : recordAt (AtOrBelow q) record' = recordAt (S := runner) (AtOrBelow q) record) :
    StepEnded record' q j step r := by
  rw [StepEnded, recordAt_below_congr heq]
  exact h

theorem StepsPassed.congr {j : Nat} (h : StepsPassed record q body j)
    (heq : recordAt (AtOrBelow q) record' = recordAt (S := runner) (AtOrBelow q) record) :
    StepsPassed record' q body j := fun m hm step hget => (h m hm step hget).congr heq

theorem BodyReached.congr {j : Nat} (h : BodyReached record q body j)
    (heq : recordAt (AtOrBelow q) record' = recordAt (S := runner) (AtOrBelow q) record) :
    BodyReached record' q body j :=
  ⟨h.passed.congr heq, fun m hm => (h.later m hm).congr (recordAt_below_congr heq)⟩

end

/-! ## Iteration events -/

/-- `repeat_iteration_started` and `repeat_iteration_completed`. -/
def isIterationKind : EventKind → Bool
  | .repeatIterationStarted => true
  | .repeatIterationCompleted => true
  | _ => false

/-- An event of an iteration of the `repeat` step at `p`. -/
def isIterationOf (p : Path) (e : Emitted) : Bool :=
  decide (e.path = p) && isIterationKind e.event.kind

/-- The iteration events of the `repeat` step at `p`, in the order they are in the trace. -/
def iterationEvents (p : Path) (record : Record) : List TraceEvent :=
  ((trace record).filter (isIterationOf p)).map Emitted.event

/-- The events of `k` iterations that pass. -/
def passes (n k : Nat) : List TraceEvent :=
  (List.range k).flatMap fun i => [iterationStarted i n, iterationCompleted i]

section

variable {p : Path} {record record' : Record} {n k : Nat}

theorem passes_succ :
    passes n (k + 1) = passes n k ++ [iterationStarted k n, iterationCompleted k] := by
  rw [passes, List.range_succ, List.flatMap_append, List.flatMap_singleton]
  rfl

theorem iterationEvents_append :
    iterationEvents p (record ++ record') = iterationEvents p record ++ iterationEvents p record' := by
  rw [iterationEvents, trace_append, List.filter_append, List.map_append]
  rfl

theorem iterationEvents_away (h : ∀ x ∈ record, x.place ≠ p) : iterationEvents p record = [] := by
  rw [iterationEvents, filter_trace_nil, List.map_nil]
  intro x hx e he
  rw [isIterationOf, decide_eq_false, Bool.false_and]
  rw [written_path he]
  exact h x hx

theorem framing_not_iteration {x : Label runner} {e : Emitted} (h : isFraming x = true)
    (he : emitted x = some e) : isIterationKind e.event.kind = false := by
  rcases x with ⟨⟨q, call⟩, r⟩ | _
  · cases call with
    | emit event =>
        obtain rfl := Option.some.inj he
        revert h
        rcases event with ⟨kind, _⟩
        cases kind <;> simp [isFraming, isIterationKind]
    | _ => cases he
  · cases he

/-- The frame around a step emits no iteration event. -/
theorem iterationEvents_framing (h : ∀ x ∈ record, Framing p x) : iterationEvents p record = [] := by
  rw [iterationEvents, filter_trace_nil, List.map_nil]
  intro x hx e he
  rw [isIterationOf, framing_not_iteration (h x hx).2 (emitted_of_written he), Bool.and_false]

theorem iterationEvents_cons {event : TraceEvent} (h : isIterationKind event.kind = true) :
    iterationEvents p (.did ⟨p, .emit event⟩ (.ok ()) :: record) =
      event :: iterationEvents p record := by
  have hof : isIterationOf p ⟨p, event⟩ = true := by rw [isIterationOf, h, decide_eq_true rfl]; rfl
  rw [iterationEvents, trace_cons, List.filter_append, List.map_append]
  simp [written, hof, iterationEvents]

theorem iterationEvents_recordAt :
    iterationEvents p (recordAt (AtOrBelow p) record) = iterationEvents p record := by
  rw [iterationEvents, filter_trace_recordAt]
  · rfl
  · intro x _ hnot e he
    rw [isIterationOf, decide_eq_false, Bool.false_and]
    rw [written_path he]
    exact fun hplace => hnot (atOrBelow_of_eq hplace)

end

/-! ## One iteration -/

/-- What an iteration has recorded, and what is left of it. -/
inductive IterationRun (p : Path) (n : Nat) (body : List Runner.StepDef) (i : Nat)
    (record : Record) : Run → Prop where
  | passed (hbody : BodyReached record (.iteration i :: p) body body.length)
      (hevents : iterationEvents p record = [iterationStarted i n, iterationCompleted i]) :
      IterationRun p n body i record (.ret (.ok ()))
  | failed {j step e} (hget : body[j]? = some step)
      (hbody : BodyReached record (.iteration i :: p) body j)
      (hfailed : StepEnded record (.iteration i :: p) j step (.error e))
      (hevents : iterationEvents p record = [iterationStarted i n, iterationErred i e]) :
      IterationRun p n body i record (.ret (.error e))
  | going {j rest} (hbody : BodyReached record (.iteration i :: p) body j)
      (hevents : iterationEvents p record = [] ∨
        iterationEvents p record = [iterationStarted i n]) (hfin : rest.finished = false) :
      IterationRun p n body i record rest

/-- The future of an iteration. -/
abbrev iterationOf (p : Path) (n : Nat) (body : List Runner.StepDef) (i : Nat) : Run :=
  iteration p i n (runBody body (.iteration i :: p) 0)

section

variable {p : Path} {n i : Nat} {body : List Runner.StepDef} {record l : Record} {rest t : Run}

/-- A body stays below its iteration. -/
theorem body_below (h : (runBody body (.iteration i :: p) 0).Runs l t) :
    ∀ x ∈ l, AtOrBelow (.iteration i :: p) x.place := by
  intro x hx
  obtain ⟨j, -, hj⟩ := h.within (runBody_stays body (.iteration i :: p) 0) x hx
  exact (atOrBelow_cons _ _).trans hj

/-- The events of an iteration stand around its body, which puts none of them itself. -/
theorem iteration_parts {after : Record}
    (h : (runBody body (.iteration i :: p) 0).Runs l t) (hafter : ∀ x ∈ after, x.place = p) :
    recordAt (S := runner) (AtOrBelow (.iteration i :: p))
        (.did ⟨p, .emit (iterationStarted i n)⟩ (.ok ()) :: (l ++ after)) =
      recordAt (AtOrBelow (.iteration i :: p)) l ∧
    iterationEvents p (.did ⟨p, .emit (iterationStarted i n)⟩ (.ok ()) :: (l ++ after)) =
      iterationStarted i n :: iterationEvents p after := by
  have haway : ¬ AtOrBelow (.iteration i :: p) p := not_atOrBelow_self _ _
  constructor
  · have hnone : recordAt (S := runner) (AtOrBelow (.iteration i :: p)) after = [] := by
      refine recordAt_none fun x hx hat => haway ?_
      rwa [hafter x hx] at hat
    rw [recordAt_cons_away (S := runner) haway, recordAt_append, hnone, List.append_nil]
  · have hnone : iterationEvents p l = [] := by
      refine iterationEvents_away fun x hx hplace => haway ?_
      exact hplace ▸ body_below h x hx
    rw [iterationEvents_cons rfl, iterationEvents_append, hnone, List.nil_append]

/-- The last event of a future is waiting, or is behind it. -/
theorem emit_last {event : TraceEvent} {r : Except RunError Unit}
    (h : (emit p event (.ret r)).Runs record rest) (hw : Written record) :
    (∀ x ∈ record, x.place = p) ∧ ((record = [] ∧ rest.finished = false) ∨
      (record = [.did ⟨p, .emit event⟩ (.ok ())] ∧ rest = .ret r)) := by
  refine ⟨h.within (emit_stays (P := (· = p)) rfl .ret), ?_⟩
  rcases emit_runs h with hwaiting | ⟨e, rfl, -⟩ | ⟨l, rfl, hret⟩
  · exact Or.inl hwaiting
  · have herror := hw.ok (List.mem_singleton.mpr rfl)
    exact nomatch herror
  · obtain ⟨rfl, rfl⟩ := Runs.ret hret
    exact Or.inr ⟨rfl, rfl⟩

/-- **An iteration ends with its body**, if the trace can be written. -/
theorem iterationRun_of_runs (h : (iterationOf p n body i).Runs record rest)
    (hw : Written record) : IterationRun p n body i record rest := by
  rcases emit_runs h with ⟨rfl, hfin⟩ | ⟨e, rfl, -⟩ | ⟨record, rfl, hbody⟩
  · exact .going (j := 0) ⟨fun m hm => (nomatch hm), fun m _ x hx => nomatch hx⟩ (Or.inl rfl) hfin
  · have herror := hw.ok (List.mem_singleton.mpr rfl)
    exact nomatch herror
  rcases hbody.bind with ⟨t, hruns, rfl⟩ | ⟨r, l₁, l₂, rfl, hruns, hend⟩
  · -- the body is not through
    obtain ⟨hat, hevents⟩ :=
      iteration_parts (n := n) hruns fun x hx => absurd hx List.not_mem_nil
    rw [List.append_nil] at hat hevents
    obtain ⟨j, hreached⟩ := (bodyRun_of_runs hruns).reached
    refine .going (hreached.congr hat) (Or.inr hevents) (finished_bind ?_)
    rintro (_ | _) <;> rfl
  · have hwritten : Written l₂ :=
      hw.mono fun x hx => List.mem_cons_of_mem _ (List.mem_append_right _ hx)
    cases r with
    | ok a =>
        obtain ⟨hafter, hlast⟩ := emit_last hend hwritten
        obtain ⟨hat, hevents⟩ := iteration_parts (n := n) hruns hafter
        cases bodyRun_of_runs hruns with
        | going _ hfin => exact nomatch hfin
        | passed hreached =>
            rcases hlast with ⟨rfl, hfin⟩ | ⟨rfl, rfl⟩
            · exact .going (hreached.congr hat) (Or.inr hevents) hfin
            · have hcompleted : iterationEvents p [.did ⟨p, .emit (iterationCompleted i)⟩ (.ok ())] =
                  [iterationCompleted i] := iterationEvents_cons rfl
              rw [hcompleted] at hevents
              exact .passed (hreached.congr hat) hevents
    | error e =>
        obtain ⟨hafter, hlast⟩ := emit_last hend hwritten
        obtain ⟨hat, hevents⟩ := iteration_parts (n := n) hruns hafter
        cases bodyRun_of_runs hruns with
        | going _ hfin => exact nomatch hfin
        | failed hget hreached hfailed =>
            rcases hlast with ⟨rfl, hfin⟩ | ⟨rfl, rfl⟩
            · exact .going (hreached.congr hat) (Or.inr hevents) hfin
            · have hcompleted : iterationEvents p [.did ⟨p, .emit (iterationErred i e)⟩ (.ok ())] =
                  [iterationErred i e] := iterationEvents_cons rfl
              rw [hcompleted] at hevents
              exact .failed hget (hreached.congr hat) (hfailed.congr hat) hevents

end

/-! ## All iterations -/

/-- Every step of the first `k` iterations has ended well. -/
def IterationsPassed (record : Record) (p : Path) (body : List Runner.StepDef) (k : Nat) : Prop :=
  ∀ i < k, StepsPassed record (.iteration i :: p) body body.length

/-- All of the `n` iterations have passed, in order, and there are no others. -/
structure AllPassed (record : Record) (p : Path) (body : List Runner.StepDef) (n : Nat) :
    Prop where
  passed : IterationsPassed record p body n
  later : ∀ i, n ≤ i → Untouched record (.iteration i :: p)
  events : iterationEvents p record = passes n n

/-- The iterations before `k` have passed, and so have the steps before `j` of iteration `k`;
nothing behind them has been started, but for this step. -/
structure Reached (record : Record) (p : Path) (body : List Runner.StepDef) (k j : Nat) :
    Prop where
  passed : IterationsPassed record p body k
  steps : BodyReached record (.iteration k :: p) body j
  later : ∀ i, k < i → Untouched record (.iteration i :: p)

/-- Step `j` of iteration `k` is the first that has failed, and the last that has been started;
its iteration has been completed with the error. -/
structure FailedFast (record : Record) (p : Path) (body : List Runner.StepDef) (n k j : Nat)
    (e : RunError) : Prop where
  iteration : k < n
  reached : Reached record p body k j
  failed : ∃ step, body[j]? = some step ∧ StepEnded record (.iteration k :: p) j step (.error e)
  events : iterationEvents p record = passes n k ++ [iterationStarted k n, iterationErred k e]

/-- Iteration `k` has been reached, and has not been completed. -/
structure Underway (record : Record) (p : Path) (body : List Runner.StepDef) (n k j : Nat) :
    Prop where
  iteration : k < n
  reached : Reached record p body k j
  events : iterationEvents p record = passes n k ∨
    iterationEvents p record = passes n k ++ [iterationStarted k n]

/-- What the iterations have recorded, and what is left of them. -/
inductive RepeatRun (p : Path) (body : List Runner.StepDef) (n : Nat) (record : Record) :
    Run → Prop where
  | passed (h : AllPassed record p body n) : RepeatRun p body n record (.ret (.ok ()))
  | failed {k j e} (h : FailedFast record p body n k j e) :
      RepeatRun p body n record (.ret (.error e))
  | going {k j rest} (h : Underway record p body n k j) (hfin : rest.finished = false) :
      RepeatRun p body n record rest

section

variable {p : Path} {n k : Nat} {body : List Runner.StepDef} {record record' : Record}
  {rest t : Run}

theorem iterationOf_away (m m' : Nat) (hne : m ≠ m') :
    Stays (fun r => ¬ AtOrBelow (.iteration m :: p) r) (iterationOf p n body m') := by
  have haway : ¬ AtOrBelow (.iteration m :: p) p := not_atOrBelow_self _ _
  refine emit_stays haway (At.bind ?_ ?_)
  · refine (runBody_stays body (.iteration m' :: p) 0).imp ?_
    rintro r ⟨j, -, hr⟩ hr'
    exact hne (Seg.iteration.inj (seg_unique hr' ((atOrBelow_cons _ _).trans hr)))
  · rintro (_ | _)
    · exact emit_stays haway .ret
    · exact emit_stays haway .ret

theorem iterations_passed (h : Rounds (iterationOf p n body) 0 k record) (hw : Written record) :
    IterationsPassed record p body k := by
  intro i hi
  obtain ⟨l, hsub, hruns, hat⟩ := h.round iterationOf_away (Nat.zero_le i) hi
  cases iterationRun_of_runs hruns (hw.mono hsub) with
  | passed hbody _ => exact (hbody.congr hat).passed
  | going _ _ hfin => exact nomatch hfin

theorem iterations_events (h : Rounds (iterationOf p n body) 0 k record) (hw : Written record) :
    iterationEvents p record = passes n k := by
  induction h with
  | nil => rfl
  | snoc _ hround ih =>
      have hevents := ih (hw.mono (List.subset_append_left _ _))
      cases iterationRun_of_runs hround (hw.mono (List.subset_append_right _ _)) with
      | passed _ hlast => rw [iterationEvents_append, hevents, hlast, passes_succ]
      | going _ _ hfin => exact nomatch hfin

/-- After the first iterations, the next has come as far as its body has. -/
theorem reached_append {l : Record} {j : Nat} (h : Rounds (iterationOf p n body) 0 k record)
    (hround : (iterationOf p n body k).Runs l t) (hw : Written record)
    (hbody : BodyReached l (.iteration k :: p) body j) : Reached (record ++ l) p body k j := by
  refine ⟨?_, hbody.congr ?_, ?_⟩
  · intro i hi
    have hnone : recordAt (S := runner) (AtOrBelow (.iteration i :: p)) l = [] :=
      recordAt_none (hround.within (iterationOf_away i k (by omega)))
    refine (iterations_passed h hw i hi).congr ?_
    rw [recordAt_append, hnone, List.append_nil]
  · rw [recordAt_append, recordAt_none (h.away iterationOf_away (Nat.le_refl k)), List.nil_append]
  · intro i hi x hx
    rcases List.mem_append.mp hx with hx | hx
    · exact h.away iterationOf_away (by omega) x hx
    · exact hround.within (iterationOf_away i k (by omega)) x hx

/-- **The iterations end with the first step that fails**, if the trace can be written. -/
theorem repeatRun_of_runs (h : (Future.loop (iterationOf p n body) 0 n).Runs record rest)
    (hw : Written record) : RepeatRun p body n record rest := by
  cases Runs.loop h with
  | returned hrounds =>
      rw [Nat.zero_add] at hrounds
      exact .passed ⟨iterations_passed hrounds hw, fun i hi => hrounds.away iterationOf_away hi,
        iterations_events hrounds hw⟩
  | @failed k l₁ l₂ e hk hrounds hround =>
      rw [Nat.zero_add] at hk
      have hw₁ : Written l₁ := hw.mono (List.subset_append_left _ _)
      have hnone : recordAt (S := runner) (AtOrBelow (.iteration k :: p)) l₁ = [] :=
        recordAt_none (hrounds.away iterationOf_away (Nat.le_refl k))
      cases iterationRun_of_runs hround (hw.mono (List.subset_append_right _ _)) with
      | going _ _ hfin => exact nomatch hfin
      | failed hget hbody hfailed hlast =>
          refine .failed ⟨hk, reached_append hrounds hround hw₁ hbody,
            ⟨_, hget, hfailed.congr ?_⟩, ?_⟩
          · rw [recordAt_append, hnone, List.nil_append]
          · rw [iterationEvents_append, iterations_events hrounds hw₁, hlast]
  | @going k l₁ l₂ t rest hk hrounds hround hopen hfin =>
      rw [Nat.zero_add] at hk
      have hw₁ : Written l₁ := hw.mono (List.subset_append_left _ _)
      cases iterationRun_of_runs hround (hw.mono (List.subset_append_right _ _)) with
      | passed => exact nomatch hopen
      | failed => exact nomatch hopen
      | going hbody hlast _ =>
          refine .going ⟨hk, reached_append hrounds hround hw₁ hbody, ?_⟩ hfin
          rw [iterationEvents_append, iterations_events hrounds hw₁]
          rcases hlast with hlast | hlast
          · exact Or.inl (by rw [hlast, List.append_nil])
          · exact Or.inr (by rw [hlast])

/-- It is enough to know what is recorded below the iterations, and their events. -/
theorem RepeatRun.congr (h : RepeatRun p body n record rest)
    (heq : ∀ i, recordAt (AtOrBelow (.iteration i :: p)) record' =
      recordAt (S := runner) (AtOrBelow (.iteration i :: p)) record)
    (hevents : iterationEvents p record' = iterationEvents p record) :
    RepeatRun p body n record' rest := by
  have hreached : ∀ {k j}, Reached record p body k j → Reached record' p body k j :=
    fun h => ⟨fun i hi => (h.passed i hi).congr (heq i), h.steps.congr (heq _),
      fun i hi => (h.later i hi).congr (heq i)⟩
  cases h with
  | passed h =>
      exact .passed ⟨fun i hi => (h.passed i hi).congr (heq i),
        fun i hi => (h.later i hi).congr (heq i), hevents.trans h.events⟩
  | failed h =>
      obtain ⟨step, hget, hfailed⟩ := h.failed
      exact .failed ⟨h.iteration, hreached h.reached, ⟨step, hget, hfailed.congr (heq _)⟩,
        hevents.trans h.events⟩
  | going h hfin =>
      exact .going ⟨h.iteration, hreached h.reached, hevents ▸ h.events⟩ hfin

end

/-! ## The step around the iterations -/

section

variable {p q : Path} {idx n : Nat} {step : Runner.StepDef} {common : Common}
  {body : List Runner.StepDef} {record : Record} {rest : Run}

/-- The parameters of the step at `p` resolve here, and ask for `n` iterations. -/
def asksFor (p : Path) (n : Nat) : Label runner → Bool
  | .did ⟨q, .snapshot params⟩ vars =>
    match substituteInValue params vars with
    | .error _ => false
    | .ok (resolved, _) =>
      decide (q = p) && (StepParams.fromValue resolved).isSome &&
        decide ((times resolved).toOption = some n)
  | _ => false

/-- The parameters of the step at `p` have been resolved, and ask for `n` iterations. -/
def Repeats (record : Record) (p : Path) (n : Nat) : Prop := ∃ x ∈ record, asksFor p n x = true

theorem Repeats.resolved (h : Repeats record p n) : ∃ params vars resolved refs read,
    .did ⟨p, .snapshot params⟩ vars ∈ record ∧
      substituteInValue params vars = .ok (resolved, refs) ∧
      StepParams.fromValue resolved = some read ∧ times resolved = .ok n := by
  obtain ⟨x, hmem, hasks⟩ := h
  rcases x with ⟨⟨q, call⟩, vars⟩ | _
  · cases call with
    | snapshot params =>
        rw [asksFor] at hasks
        rcases hsub : substituteInValue params vars with f | ⟨resolved, refs⟩
        · simp only [hsub] at hasks
          exact nomatch hasks
        · simp only [hsub, Bool.and_eq_true, decide_eq_true_eq] at hasks
          obtain ⟨⟨rfl, hread⟩, htimes⟩ := hasks
          obtain ⟨read, hread⟩ := Option.isSome_iff_exists.mp hread
          refine ⟨params, vars, resolved, refs, read, hmem, hsub, hread, ?_⟩
          rcases hn : times resolved with e | m
          · rw [hn] at htimes
            exact nomatch htimes
          · rw [hn] at htimes
            rw [Option.some.inj htimes]
    | _ => exact nomatch hasks
  · exact nomatch hasks

theorem executeStep_repeat {resolved : Value} {params : StepParams}
    (hparams : StepParams.fromValue resolved = some params) (htimes : times resolved = .ok n) :
    Runner.executeStep (.repeat common body) p resolved = .loop (iterationOf p n body) 0 n := by
  rw [Runner.executeStep, hparams]
  simp only [htimes]

/-- Once the parameters have been resolved, the step is executed with them. -/
theorem StepRun.executed {params resolved : Value} {vars : VarStore}
    {refs : List (String × String)} (h : StepRun p idx step record rest)
    (hmem : .did ⟨p, .snapshot params⟩ vars ∈ record)
    (hsub : substituteInValue params vars = .ok (resolved, refs)) :
    ∃ pre exec post left, record = pre ++ exec ++ post ∧ (∀ x ∈ pre, Framing p x) ∧
      (∀ x ∈ post, Framing p x) ∧ (Runner.executeStep step p resolved).Runs exec left ∧
      (rest.finished = true →
        ∃ result, left = .ret result ∧ (completeStep p idx step result).Runs post rest) := by
  cases h with
  | starting hinitial _ => exact absurd (hinitial.subset hmem) header_no_snapshot
  | unwritten => simp at hmem
  | unresolved hsub' =>
      obtain ⟨rfl, rfl⟩ := snapshot_of_mem hmem fun params vars hx => nomatch hx
      exact nomatch hsub.symm.trans hsub'
  | @referencing o s vars' resolved' refs' done record rest hsub' hinitial hemits hrest =>
      obtain ⟨rfl, rfl⟩ := snapshot_of_mem hmem fun params vars => hemits.no_snapshot
      refine ⟨_, [], [], _, by rw [List.append_nil, List.append_nil], ?_,
        fun x hx => (nomatch hx), .refl, fun hfin => nomatch hrest.symm.trans hfin⟩
      exact before_framing fun x hx => references_framing hemits hinitial hx
  | @executing o s vars' resolved' refs' references exec left rest hsub' hemits hruns hrest =>
      have hinner := hruns.within (executeStep_inner step p resolved')
      obtain ⟨rfl, rfl⟩ := snapshot_of_mem hmem fun params vars hx => by
        rcases List.mem_append.mp hx with hx | hx
        · exact hemits.no_snapshot hx
        · exact no_snapshot_inner hinner hx
      obtain ⟨rfl, rfl⟩ := Prod.mk.inj (Except.ok.inj (hsub.symm.trans hsub'))
      refine ⟨header p idx step o s ++ .did ⟨p, .snapshot step.substituted⟩ vars :: references,
        exec, [], left, by simp, ?_, fun x hx => (nomatch hx), hruns,
        fun hfin => nomatch hrest.symm.trans hfin⟩
      exact before_framing fun x hx => references_framing hemits (List.prefix_refl _) hx
  | @closing o s vars' resolved' refs' references exec result passed tail rest hsub' hemits hruns
      htail =>
      have hinner := hruns.within (executeStep_inner step p resolved')
      obtain ⟨rfl, rfl⟩ := snapshot_of_mem hmem fun params vars =>
        closing_no_snapshot hemits hinner htail
      obtain ⟨rfl, rfl⟩ := Prod.mk.inj (Except.ok.inj (hsub.symm.trans hsub'))
      refine ⟨header p idx step o s ++ .did ⟨p, .snapshot step.substituted⟩ vars :: references,
        exec, .did ⟨p, .drain (.closing step)⟩ passed :: tail, _, by simp, ?_,
        htail.within completeStep_framing, hruns, fun _ => ⟨result, rfl, htail⟩⟩
      exact before_framing fun x hx => references_framing hemits (List.prefix_refl _) hx

/-- Whether a step has ended well is seen from the last entry of its execution. -/
theorem StepEnded.ok_iff {r : Except RunError Unit} (h : StepEnded record q idx step r)
    (hw : Written record) : r = .ok () ↔
      ∃ l, recordAt (AtOrBelow (.step idx :: q)) record =
        l ++ [.did (S := runner) ⟨.step idx :: q, .emit (stepCompleted idx "ok")⟩ (.ok ())] := by
  have hwritten : Written (recordAt (AtOrBelow (.step idx :: q)) record) :=
    hw.mono fun x hx => (mem_recordAt.mp hx).1
  rw [StepEnded] at h
  generalize recordAt (S := runner) (AtOrBelow (.step idx :: q)) record = execution at h hwritten
  cases stepRun_of_runs h with
  | starting _ hrest => exact nomatch hrest
  | referencing _ _ _ hrest => exact nomatch hrest
  | executing _ _ _ hrest => exact nomatch hrest
  | unwritten =>
      have herror := hwritten.ok (List.mem_cons_of_mem _ (List.mem_singleton.mpr rfl))
      exact nomatch herror
  | unresolved _ =>
      refine ⟨fun hr => (nomatch hr), ?_⟩
      rintro ⟨l, heq⟩
      exact nomatch (List.append_inj' heq rfl).2
  | @closing o s vars resolved refs references exec result passed tail _ _ _ _ htail =>
      have hsub : .did ⟨.step idx :: q, .drain (.closing step)⟩ passed :: tail ⊆
          header (.step idx :: q) idx step o s ++
            .did ⟨.step idx :: q, .snapshot step.substituted⟩ vars ::
              (references ++ exec ++ .did ⟨.step idx :: q, .drain (.closing step)⟩ passed ::
                tail) := fun x hx =>
        List.mem_append_right _ (List.mem_cons_of_mem _ (List.mem_append_right _ hx))
      obtain ⟨drained, l, event, hlast, -, hends⟩ :=
        completeStep_ends htail rfl (hwritten.mono hsub)
      have hevent : r = .ok () ↔ event = stepCompleted idx "ok" := by
        rcases hends with ⟨rfl, -, hr⟩ | ⟨rfl, -, hr⟩ | ⟨e, rfl, -, hr⟩
        · obtain rfl := Future.ret.inj hr
          exact ⟨fun _ => rfl, fun _ => rfl⟩
        · obtain rfl := Future.ret.inj hr
          simp [stepCompleted, internal, TraceEvent.new]
        · obtain rfl := Future.ret.inj hr
          simp [stepErred, stepCompleted, internal, TraceEvent.new]
      have hexecution : ∃ before, header (.step idx :: q) idx step o s ++
          .did ⟨.step idx :: q, .snapshot step.substituted⟩ vars ::
            (references ++ exec ++ .did ⟨.step idx :: q, .drain (.closing step)⟩ passed :: tail) =
          before ++ [.did (S := runner) ⟨.step idx :: q, .emit event⟩ (.ok ())] := by
        rw [hlast]
        exact ⟨header (.step idx :: q) idx step o s ++
          .did ⟨.step idx :: q, .snapshot step.substituted⟩ vars :: (references ++ exec ++
            .did ⟨.step idx :: q, .drain (.closing step)⟩ drained :: l), by simp⟩
      obtain ⟨before, hbefore⟩ := hexecution
      rw [hevent, hbefore]
      constructor
      · rintro rfl
        exact ⟨before, rfl⟩
      · rintro ⟨l', heq⟩
        obtain ⟨hdid, -⟩ := List.cons.inj (List.append_inj' heq rfl).2
        injection hdid with hrequest
        injection hrequest with _ hcall
        exact Call.emit.inj hcall

/-- No execution has both ended well and failed. -/
theorem StepEnded.not_failed {e : RunError} (h : StepEnded record q idx step (.error e))
    (hw : Written record) : ¬ StepEnded record q idx step (.ok ()) :=
  fun hok => nomatch (h.ok_iff hw).mpr ((hok.ok_iff hw).mp rfl)

end

/-! ## Repeats in a scenario -/

section

variable {files : Files} {scenario : Scenario} {events : List OwnEvent} {vars : VarStore}
  {record : Record} {rest left : Run} {q : Path} {idx n : Nat} {common : Common}
  {body : List Runner.StepDef}

/-- How a `repeat` step can have ended, or where it stands. -/
inductive RepeatOutcome (record : Record) (p : Path) (body : List Runner.StepDef) (n : Nat)
    (left : Run) : Prop where
  /-- No step has failed: only the assertions of the `repeat` step itself can. -/
  | passed (h : AllPassed record p body n)
      (hend : left.finished = true →
        left = .ret (.ok ()) ∨ left = .ret (.error .assertionFailure))
  | failed {k j e} (h : FailedFast record p body n k j e)
      (hend : left.finished = true → left = .ret (.error e))
  | underway {k j} (h : Underway record p body n k j) (hfin : left.finished = false)

/-- An execution of a `repeat` step, if the trace can be written. -/
theorem repeatOutcome_of_runs (hw : Written record)
    (htimes : Repeats record (.step idx :: q) n)
    (h : (Runner.runStep q idx (.repeat common body)).Runs
      (recordAt (AtOrBelow (.step idx :: q)) record) left) :
    RepeatOutcome record (.step idx :: q) body n left := by
  obtain ⟨params, vars, resolved, refs, read, hmem, hsub, hread, hn⟩ := htimes.resolved
  have hat : Label.did (S := runner) ⟨.step idx :: q, .snapshot params⟩ vars ∈
      recordAt (AtOrBelow (.step idx :: q)) record := mem_recordAt.mpr ⟨hmem, List.suffix_refl _⟩
  obtain ⟨pre, exec, post, t, hrecord, hpre, hpost, hexec, hend⟩ :=
    (stepRun_of_runs h).executed hat hsub
  have hsubset : ∀ x ∈ pre ++ exec ++ post, x ∈ record := by
    intro x hx
    rw [← hrecord] at hx
    exact (mem_recordAt.mp hx).1
  have hwritten : Written post := hw.mono fun x hx => hsubset x (List.mem_append_right _ hx)
  rw [executeStep_repeat hread hn] at hexec
  have hruns := repeatRun_of_runs hexec (hw.mono fun x hx =>
    hsubset x (List.mem_append_left _ (List.mem_append_right _ hx)))
  have hframing : ∀ {l : Record} (i : Nat), (∀ x ∈ l, Framing (.step idx :: q) x) →
      recordAt (S := runner) (AtOrBelow (.iteration i :: .step idx :: q)) l = [] := by
    intro l i hl
    refine recordAt_none fun x hx hbelow => ?_
    rw [(hl x hx).1] at hbelow
    exact not_atOrBelow_self _ _ hbelow
  have hparts : ∀ i, recordAt (S := runner) (AtOrBelow (.iteration i :: .step idx :: q)) record =
      recordAt (AtOrBelow (.iteration i :: .step idx :: q)) exec := by
    intro i
    rw [← recordAt_recordAt (P := AtOrBelow (.step idx :: q)) fun r hr =>
      (atOrBelow_cons _ _).trans hr, hrecord, recordAt_append, recordAt_append, hframing i hpre,
      hframing i hpost, List.nil_append, List.append_nil]
  have hevents : iterationEvents (.step idx :: q) record =
      iterationEvents (.step idx :: q) exec := by
    rw [← iterationEvents_recordAt, hrecord, iterationEvents_append, iterationEvents_append,
      iterationEvents_framing hpre, iterationEvents_framing hpost, List.nil_append, List.append_nil]
  cases hruns.congr hparts hevents with
  | passed h =>
      refine .passed h fun hfin => ?_
      obtain ⟨result, heq, htail⟩ := hend hfin
      obtain rfl := Future.ret.inj heq
      obtain ⟨passed, asserted, event, -, -, hends⟩ := completeStep_ends htail hfin hwritten
      rcases hends with ⟨-, -, hok⟩ | ⟨-, -, hfailed⟩ | ⟨e, -, hno, -⟩
      · exact Or.inl hok
      · exact Or.inr hfailed
      · exact nomatch hno
  | failed h =>
      refine .failed h fun hfin => ?_
      obtain ⟨result, heq, htail⟩ := hend hfin
      obtain rfl := Future.ret.inj heq
      obtain ⟨passed, asserted, event, -, -, hends⟩ := completeStep_ends htail hfin hwritten
      rcases hends with ⟨-, hno, -⟩ | ⟨-, hno, -⟩ | ⟨e, -, he, hfailed⟩
      · exact nomatch hno
      · exact nomatch hno
      · rw [Except.error.inj he]
        exact hfailed
  | going h hopen =>
      refine .underway h (Bool.eq_false_iff.mpr fun hfin => ?_)
      obtain ⟨result, rfl, -⟩ := hend hfin
      exact nomatch hopen

/-- Step `j` of iteration `k` has failed. -/
def FailedAt (record : Record) (p : Path) (body : List Runner.StepDef) (k j : Nat) : Prop :=
  ∃ step e, body[j]? = some step ∧ StepEnded record (.iteration k :: p) j step (.error e)

theorem StepEnded.touched {step : Runner.StepDef} {r : Except RunError Unit}
    (h : StepEnded record q idx step r) : ¬ Untouched record (.step idx :: q) := by
  intro hnone
  rw [StepEnded, recordAt_none hnone] at h
  rcases Runs.ask h with ⟨-, heq⟩ | ⟨b, l, heq, -⟩
  · exact nomatch heq
  · exact nomatch heq

/-- A step that has failed was started, and has not ended well. -/
theorem FailedAt.started {p : Path} {k j : Nat} (h : FailedAt record p body k j)
    (hw : Written record) : ¬ StepsPassed record (.iteration k :: p) body (j + 1) ∧
      j < body.length ∧ ¬ Untouched record (.step j :: .iteration k :: p) := by
  obtain ⟨step, e, hget, hfailed⟩ := h
  refine ⟨fun hpassed => hfailed.not_failed hw (hpassed j (Nat.lt_succ_self j) step hget), ?_, ?_⟩
  · exact (List.getElem?_eq_some_iff.mp hget).1
  · exact hfailed.touched

/-- Only the last step that has been started can have failed. -/
theorem Reached.failedAt {p : Path} {k j k' j' : Nat} (h : Reached record p body k j)
    (hfailed : FailedAt record p body k' j') (hw : Written record) : k' = k ∧ j' = j := by
  obtain ⟨hno, hlt, hstarted⟩ := hfailed.started hw
  have hk : k' = k := by
    rcases Nat.lt_trichotomy k' k with hlt' | heq | hgt
    · exact absurd (fun m hm => h.passed k' hlt' m (by omega)) hno
    · exact heq
    · exact absurd (fun x hx hat => h.later k' hgt x hx ((atOrBelow_cons _ _).trans hat)) hstarted
  subst hk
  refine ⟨rfl, ?_⟩
  rcases Nat.lt_trichotomy j' j with hlt' | heq | hgt
  · exact absurd (fun m hm => h.steps.passed m (by omega)) hno
  · exact heq
  · exact absurd (h.steps.later j' hgt) hstarted

theorem AllPassed.not_failedAt {p : Path} {k j : Nat} (h : AllPassed record p body n)
    (hw : Written record) : ¬ FailedAt record p body k j := by
  intro hfailed
  obtain ⟨hno, hlt, hstarted⟩ := hfailed.started hw
  rcases Nat.lt_or_ge k n with hk | hk
  · exact hno fun m hm => h.passed k hk m (by omega)
  · exact hstarted fun x hx hat => h.later k hk x hx ((atOrBelow_cons _ _).trans hat)

/-- **A repeat fails fast.** In every execution of a `repeat` step, if the trace can be written,
a step of its body that fails is the last that is started, its iteration is the last and
completed with its error, and the `repeat` step ends with this error. If no step fails, then all
iterations pass, in order. An execution that has not ended is on the way there, and the
scenario has not ended either, or a branch around the step has been dropped. -/
theorem repeat_failFast (hrun : ScenarioRun files scenario events vars record rest)
    (hw : Written record) (hstep : Locates scenario.steps root q idx (.repeat common body))
    (htimes : Repeats record (.step idx :: q) n) :
    (∃ left, (Runner.runStep q idx (.repeat common body)).Runs
        (recordAt (AtOrBelow (.step idx :: q)) record) left ∧
      (rest.finished = true →
        left.finished = true ∨ Dropped (Contains (.step idx :: q)) record)) ∧
    ∀ left, (Runner.runStep q idx (.repeat common body)).Runs
        (recordAt (AtOrBelow (.step idx :: q)) record) left →
      (∀ k j, FailedAt record (.step idx :: q) body k j →
        (∃ e, FailedFast record (.step idx :: q) body n k j e ∧
          (left.finished = true → left = .ret (.error e))) ∨
        (Underway record (.step idx :: q) body n k j ∧ left.finished = false)) ∧
      ((∀ k j, ¬ FailedAt record (.step idx :: q) body k j) →
        (AllPassed record (.step idx :: q) body n ∧ (left.finished = true →
          left = .ret (.ok ()) ∨ left = .ret (.error .assertionFailure))) ∨
        (∃ k j, Underway record (.step idx :: q) body n k j ∧ left.finished = false)) := by
  constructor
  · obtain ⟨params, store, resolved, refs, read, hmem, -⟩ := htimes.resolved
    exact local_run hrun.runs hstep ⟨_, hmem, List.suffix_refl _⟩
  · intro left hruns
    cases repeatOutcome_of_runs hw htimes hruns with
    | passed h hend =>
        exact ⟨fun k j hfailed => absurd hfailed (h.not_failedAt hw), fun _ => Or.inl ⟨h, hend⟩⟩
    | @failed k j e h hend =>
        have hat : FailedAt record (.step idx :: q) body k j := by
          obtain ⟨step, hget, hfailed⟩ := h.failed
          exact ⟨step, e, hget, hfailed⟩
        refine ⟨fun k' j' hfailed => ?_, fun hnone => absurd hat (hnone k j)⟩
        obtain ⟨rfl, rfl⟩ := h.reached.failedAt hfailed hw
        exact Or.inl ⟨e, h, hend⟩
    | @underway k j h hopen =>
        refine ⟨fun k' j' hfailed => ?_, fun _ => Or.inr ⟨k, j, h, hopen⟩⟩
        obtain ⟨rfl, rfl⟩ := h.reached.failedAt hfailed hw
        exact Or.inr ⟨h, hopen⟩

end

/-- Sleeps twice, and the second time fails. -/
def sleptOnce : Record :=
  simulated noFiles (scenarioOf [sleepTimes 2 none]) (fun _ => none)
    (List.replicate 19 ([0], .ok ()) ++ ([0], .error (.error ["sleep interrupted"])) :: straight 8)

/-- The second iteration is the first that fails. -/
theorem sleptOnce_failFast :
    ∃ e, FailedFast sleptOnce (.step 0 :: root) [sleeping none] 2 1 0 e := by
  have hrun : ScenarioRun noFiles (scenarioOf [sleepTimes 2 none]) [] (fun _ => none) sleptOnce _ :=
    simulated_run (by decide +kernel)
  have htimes : Repeats sleptOnce (.step 0 :: root) 2 := by
    have hany : sleptOnce.any (asksFor (.step 0 :: root) 2) = true := by decide +kernel
    exact List.any_eq_true.mp hany
  have hw : Written sleptOnce := written_of_length (by decide +kernel)
  obtain ⟨⟨left, hruns, hend⟩, houtcome⟩ := repeat_failFast hrun hw (.here rfl) htimes
  have hfin : left.finished = true := by
    refine (hend (by decide +kernel)).resolve_right ?_
    rintro ⟨p, bi, hmem, -⟩
    have hall : sleptOnce.all isRequest = true := by decide +kernel
    exact nomatch List.all_eq_true.mp hall _ hmem
  have herrors : (iterationEvents (.step 0 :: root) sleptOnce).map
      (fun event => (event.payload.getField "error").isSome) = [false, false, false, true] := by
    decide +kernel
  obtain ⟨hfast, hnone⟩ := houtcome left hruns
  have hopen : left.finished ≠ false := fun hopen => nomatch hopen.symm.trans hfin
  by_cases hfailed : ∃ k j, FailedAt sleptOnce (.step 0 :: root) [sleeping none] k j
  · obtain ⟨k, j, hfailed⟩ := hfailed
    rcases hfast k j hfailed with ⟨e, h, -⟩ | ⟨-, hno⟩
    · obtain ⟨-, hj, -⟩ := hfailed.started hw
      obtain rfl : j = 0 := Nat.lt_one_iff.mp hj
      have hk := h.iteration
      rw [h.events] at herrors
      obtain rfl : k = 1 := by
        rcases k with _ | _ | k
        · exact nomatch herrors
        · rfl
        · omega
      exact ⟨e, h⟩
    · exact absurd hno hopen
  · rcases hnone fun k j hat => hfailed ⟨k, j, hat⟩ with ⟨h, -⟩ | ⟨k, j, -, hno⟩
    · rw [h.events] at herrors
      exact nomatch herrors
    · exact absurd hno hopen

end ConformanceHarness.Proof
