import ConformanceHarness.Runner.RunScenario

/-!
# Scenarios on a schedule

A schedule says which branch goes on next, and how a step ends if it is one that goes on
then. The trace can always be written, steps do nothing but end, and the buffer, the
variables and the flags are what the record has left behind. `simulate` runs a scenario so,
and what comes out is a run.
-/

namespace ConformanceHarness.Runner

open Lib

/-- What a call finds; a step that is executed ends with `result`. -/
def answer (vars : VarStore) (before : Record) (result : Except RunError Unit) :
    (r : Request) → r.call.Answer
  | ⟨_, .emit _⟩ => .ok ()
  | ⟨_, .drain _⟩ => buffered before
  | ⟨_, .snapshot _⟩ => before.foldl varsStep vars
  | ⟨_, .setVariable _ _⟩ => ()
  | ⟨_, .execute _ _ _ _⟩ => ⟨[], result⟩
  | ⟨_, .storeCompleted⟩ => ()
  | ⟨_, .storeFailed⟩ => ()
  | ⟨_, .storeLastStep _⟩ => ()
  | ⟨p, .load bi⟩ => flagsOf (.branch bi :: p) before
  | ⟨_, .openConnections⟩ => []
  | ⟨_, .elapsed⟩ => 0

theorem answer_faithful (vars : VarStore) (before : Record) (result : Except RunError Unit)
    (r : Request) : Faithful vars before r (answer vars before result r) := by
  rcases r with ⟨p, call⟩
  cases call with
  | drain which => exact rfl
  | snapshot params => exact rfl
  | load bi => exact rfl
  | _ => trivial

/-- A schedule: the branch that goes on, by its number in each join around it. -/
abbrev Schedule := List (List Nat × Except RunError Unit)

/-- Runs a scenario without background workers. -/
def simulate (files : Files) (scenario : Scenario) (vars : VarStore) (schedule : Schedule) :
    Option (Run × Record) :=
  Future.follow (answer vars) schedule [] (program files scenario [])

/-- What a schedule leaves in the record. -/
def simulated (files : Files) (scenario : Scenario) (vars : VarStore) (schedule : Schedule) :
    Record := ((simulate files scenario vars schedule).map Prod.snd).getD []

/-- What is left after a schedule. -/
def leftOver (files : Files) (scenario : Scenario) (vars : VarStore) (schedule : Schedule) :
    Run := ((simulate files scenario vars schedule).map Prod.fst).getD (.ret (.ok ()))

/-- A schedule that can be followed leads to a run. -/
theorem simulated_run {files : Files} {scenario : Scenario} {vars : VarStore} {schedule : Schedule}
    (h : (simulate files scenario vars schedule).isSome = true) :
    ScenarioRun files scenario [] vars (simulated files scenario vars schedule)
      (leftOver files scenario vars schedule) := by
  obtain ⟨⟨rest, record⟩, hsim⟩ := Option.isSome_iff_exists.mp h
  obtain ⟨l, heq, hruns⟩ := Future.follow_runs hsim
  rw [List.nil_append] at heq
  rw [simulated, leftOver, hsim]
  refine ⟨heq ▸ hruns, ?_⟩
  exact Future.follow_answered (answer_faithful vars) hsim .nil

/-! ## Small scenarios -/

/-- The JSON of a `sleep` step with an `expect` clause, if it has one. -/
def sleepJson (expect : Option Value) : Value :=
  .object ([("duration_secs", .ofLen 1)] ++ (expect.map fun e => ("expect", e)).toList ++
    [("kind", .string "sleep")])

/-- A `sleep` step. -/
def sleeping (expect : Option Assertions) : StepDef :=
  .leaf .sleep ⟨.object [("duration_secs", .ofLen 1)], expect⟩

/-- A `repeat` step that sleeps `n` times. -/
def sleepTimes (n : Nat) (expect : Option Assertions) : StepDef :=
  .repeat ⟨.object [("body", .array [sleepJson none]), ("times", .ofLen n)], expect⟩ [sleeping none]

/-- A scenario without peers. -/
def scenarioOf (steps : List StepDef) : Scenario := ⟨"example", none, none, 1, none, none, steps⟩

/-- A step that asks for an event, and emits none. -/
def expectant : StepDef := sleeping (some ⟨some 1, none, none⟩)

/-- `expectant` in a branch, and a step next to it. -/
def besides : StepDef :=
  .parallel
    ⟨.object [("branches",
      .array [.array [sleepJson (some (.object [("min_events", .ofLen 1)]))],
        .array [sleepJson none]])], none⟩
    [[expectant], [sleeping none]]

/-- `besides`, and nothing else. -/
def sideBySide : Scenario := scenarioOf [besides]

/-- No files. -/
def noFiles : Files := ⟨fun _ => none, fun _ => none⟩

end ConformanceHarness.Runner
