import ConformanceHarness.Lib.Forest
import ConformanceHarness.Loader.Validation

/-!
# Client-mode and server-mode

`validate` looks for client-side and for server-side steps among the steps of the scenario, and
not among the steps of those.
-/

namespace ConformanceHarness.Proof

open ConformanceHarness.Lib ConformanceHarness.Loader

/-- A step of the scenario, at any depth. -/
def Reachable (steps : List Loader.StepDef) : Loader.StepDef → Prop :=
  Within Loader.StepDef.Runs steps

/-- A step in the body of a `repeat` or in a branch of a `parallel`, at any depth. -/
def Nested (steps : List Loader.StepDef) : Loader.StepDef → Prop :=
  Below Loader.StepDef.Runs steps

/-- One step is client-side, and the other is server-side. -/
def Opposite (a b : Loader.StepDef) : Prop :=
  a.kind.isClientSide = true ∧ b.kind.isServerSide = true ∨
    b.kind.isClientSide = true ∧ a.kind.isServerSide = true

theorem Opposite.symm {a b : Loader.StepDef} (h : Opposite a b) : Opposite b a := Or.symm h

/-- There are not both a client-side step and a server-side step. -/
def Separated (among : Loader.StepDef → Prop) : Prop :=
  ¬ ((∃ c, among c ∧ c.kind.isClientSide = true) ∧ ∃ s, among s ∧ s.kind.isServerSide = true)

theorem separated_iff {among : Loader.StepDef → Prop} :
    Separated among ↔ ∀ a b, among a → among b → ¬ Opposite a b := by
  constructor
  · intro h a b ha hb hopposite
    rcases hopposite with ⟨hc, hs⟩ | ⟨hc, hs⟩
    · exact h ⟨⟨a, ha, hc⟩, ⟨b, hb, hs⟩⟩
    · exact h ⟨⟨b, hb, hc⟩, ⟨a, ha, hs⟩⟩
  · intro h hboth
    obtain ⟨⟨c, hc, hclient⟩, ⟨s, hs, hserver⟩⟩ := hboth
    exact h c s hc hs (Or.inl ⟨hclient, hserver⟩)

/-- The check at the top of `validate` is about the scenario's own steps. -/
theorem modeErrors_eq_nil {steps : List Loader.StepDef} (h : modeErrors steps = []) :
    Separated (· ∈ steps) := by
  intro hboth
  obtain ⟨⟨c, hc, hclient⟩, ⟨s, hs, hserver⟩⟩ := hboth
  have hhasClient : (steps.any fun s => s.kind.isClientSide) = true :=
    List.any_eq_true.mpr ⟨c, hc, hclient⟩
  have hhasServer : (steps.any fun s => s.kind.isServerSide) = true :=
    List.any_eq_true.mpr ⟨s, hs, hserver⟩
  have hfound := errorIf_eq_nil.mp h
  simp [hhasClient, hhasServer] at hfound

/-- **An accepted scenario is in one mode if and only if its nested steps are, and none of them is
of the other side than a step of the scenario's own list.** -/
theorem mode_separated_iff {serdeError : Value → String} {scenario : Loader.Scenario}
    (h : Accepted serdeError scenario) :
    Separated (Reachable scenario.steps) ↔
      (∀ step ∈ scenario.steps, ∀ inner, Nested scenario.steps inner → ¬ Opposite step inner) ∧
        Separated (Nested scenario.steps) := by
  have htop := separated_iff.mp (modeErrors_eq_nil (accepted_iff.mp h).1)
  have hpairs := @within_pairs_iff _ Loader.StepDef.Runs scenario.steps
    (fun a b => ¬ Opposite a b) fun a b hab hba => hab hba.symm
  rw [separated_iff, separated_iff]
  constructor
  · intro hall
    exact (hpairs.mp hall).2
  · intro hnested
    -- the roots are what `validate` has looked at
    exact hpairs.mpr ⟨fun a ha b hb => htop a b ha hb, hnested⟩

/-! ## A connection beside a listener -/

/-- `connect` in one branch of a `parallel` step, `listen` in the other. -/
def connectBesideListen : Value := .array [.object [("branches", .array
  [.array [.object [("kind", .string "connect")]],
    .array [.object [("kind", .string "listen")]]]), ("kind", .string "parallel")]]

/-- A step with nothing but a kind and parameters. -/
def plainStep (kind : StepKind) (fields : List (String × Value)) : Loader.StepDef where
  kind := kind
  rawParams := .object fields
  output := none
  asName := none
  onName := none
  expect := none

/-- The `parallel` step. -/
def besideStep : Loader.StepDef := plainStep .parallel [("branches", .array
  [.array [.object [("kind", .string "connect")]],
    .array [.object [("kind", .string "listen")]]])]

/-- The scenario, at an address. -/
def besideScenario : Loader.Scenario where
  name := "t"
  targetAddress := some "localhost:3001"
  network := none
  steps := [besideStep]

/-- The steps of the two branches, as they are parsed. -/
def connectStep : Loader.StepDef := plainStep (.leaf .connect) []

def listenStep : Loader.StepDef := plainStep (.leaf .listen) []

/-- A step without steps of its own passes, and so do those after it. -/
theorem validateSteps_leaf {serdeError : Value → String} {i : Nat} {step : Loader.StepDef}
    {rest : List Loader.StepDef} {kind : Runner.LeafKind} (hkind : step.kind = .leaf kind)
    (hother : kind ≠ .chainSync) (hfields : fieldErrors (stepPos i step) step = [])
    (hleaf : leafErrors (stepPos i step) step false kind = .ok [])
    (hrest : validateSteps serdeError (i + 1) rest false = .ok ([], false)) :
    validateSteps serdeError i (step :: rest) false = .ok ([], false) := by
  rw [validateSteps]
  refine Checked.andThen_clean.mpr ⟨false, ?_, hrest⟩
  rw [validateStep_leaf hkind, hfields]
  refine Checked.andThen_clean.mpr ⟨false, rfl, ?_⟩
  rw [hleaf, if_neg hother]
  rfl

/-- A step without parameters refers to no peer. -/
theorem walkAsPeerRefs_plain {network : Option Network} {i : Nat} {step : Loader.StepDef}
    {rest : List Loader.StepDef} (hparams : step.rawParams = .object []) :
    walkAsPeerRefs network i (step :: rest) = walkAsPeerRefs network (i + 1) rest := by
  have hget : ∀ key, step.get key = none := by
    intro key
    simp [Loader.StepDef.get, hparams, Value.getField]
  simp [walkAsPeerRefs, walkAsPeerBranches, asPeerErrors, StepDef.bodySteps,
    StepDef.branchSteps, hget]

theorem besideScenario_validated :
    validateSteps (fun _ => "") 0 besideScenario.steps false = .ok ([], false) := by
  have hnil : ∀ i, validateSteps (fun _ => "") i [] false = .ok ([], false) := by
    intro i
    rw [validateSteps]
  have hconnect : validateSteps (fun _ => "") 0 [connectStep] false = .ok ([], false) :=
    validateSteps_leaf rfl (by decide) rfl rfl (hnil 1)
  have hlisten : validateSteps (fun _ => "") 0 [listenStep] false = .ok ([], false) :=
    validateSteps_leaf rfl (by decide) rfl rfl (hnil 1)
  have hfirst : stepsOf (.array [.object [("kind", .string "connect")]]) = some [connectStep] := rfl
  have hsecond : stepsOf (.array [.object [("kind", .string "listen")]]) = some [listenStep] := rfl
  rw [besideScenario, validateSteps, validateStep_parallel rfl rfl]
  refine Checked.andThen_clean.mpr ⟨false, ?_, hnil 1⟩
  refine Checked.andThen_clean.mpr ⟨false, rfl, ?_⟩
  rw [validateBranches_cons hfirst]
  refine Checked.andThen_clean.mpr ⟨false, hconnect, ?_⟩
  rw [validateBranches_cons hsecond]
  exact Checked.andThen_clean.mpr ⟨false, hlisten, by rw [validateBranches]⟩

theorem besideScenario_peers : walkAsPeerRefs none 0 besideScenario.steps = [] := by
  have hbody : besideStep.bodySteps = [] := rfl
  have hbranches : besideStep.branchSteps = [[connectStep], [listenStep]] := rfl
  rw [besideScenario, walkAsPeerRefs, hbody, hbranches]
  have hconnect : walkAsPeerRefs none 0 [connectStep] = [] := by
    rw [walkAsPeerRefs_plain rfl, walkAsPeerRefs]
  have hlisten : walkAsPeerRefs none 0 [listenStep] = [] := by
    rw [walkAsPeerRefs_plain rfl, walkAsPeerRefs]
  simp only [walkAsPeerBranches, hconnect, hlisten, walkAsPeerRefs]
  rfl

theorem besideScenario_accepted : Accepted (fun _ => "") besideScenario := by
  have haddresses : validateConnectAddresses besideScenario = [] :=
    errorIf_eq_nil.mpr (Bool.and_false _)
  exact accepted_iff.mpr ⟨rfl, ⟨false, besideScenario_validated⟩, rfl, haddresses, rfl,
    besideScenario_peers⟩

/-- **`validate` accepts a scenario that has a client-side step and a server-side step.** -/
theorem accepted_mixed : stepsOf connectBesideListen = some besideScenario.steps ∧
    Accepted (fun _ => "") besideScenario ∧ ¬ Separated (Reachable besideScenario.steps) := by
  refine ⟨rfl, besideScenario_accepted, fun hseparated => hseparated ?_⟩
  have hbranch : ∀ inner ∈ [connectStep, listenStep], Reachable besideScenario.steps inner := by
    intro inner hinner
    have hparse : branchesOf (.array [.array [.object [("kind", .string "connect")]],
      .array [.object [("kind", .string "listen")]]]) = some [[connectStep], [listenStep]] := rfl
    refine ⟨besideStep, List.mem_singleton.mpr rfl, .single ?_⟩
    refine Loader.StepDef.Runs.branch rfl rfl hparse ?_ (List.mem_singleton.mpr rfl)
    rcases List.mem_pair.mp hinner with rfl | rfl
    · exact List.mem_cons_self
    · exact List.mem_cons_of_mem _ List.mem_cons_self
  exact ⟨⟨connectStep, hbranch _ List.mem_cons_self, rfl⟩,
    ⟨listenStep, hbranch _ (List.mem_cons_of_mem _ List.mem_cons_self), rfl⟩⟩

theorem mode_separated_beside : Separated (Reachable besideScenario.steps) ↔
    (∀ step ∈ besideScenario.steps, ∀ inner, Nested besideScenario.steps inner →
      ¬ Opposite step inner) ∧ Separated (Nested besideScenario.steps) :=
  mode_separated_iff besideScenario_accepted

end ConformanceHarness.Proof
