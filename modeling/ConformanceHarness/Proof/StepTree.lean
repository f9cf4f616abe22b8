import ConformanceHarness.Proof.ModeSeparation

/-!
# What the validation walks over

`validate_steps`, `collect_connect_steps` and `walk_as_peer_refs` each have a loop of their own
over the steps, and each goes into the body of a `repeat` and the branches of a `parallel`. Here
it is shown that none of them leaves out a step that a run can come to.
-/

namespace ConformanceHarness.Proof

open ConformanceHarness.Loader
open ConformanceHarness.Runner (LeafKind)

variable {steps : List Loader.StepDef} {step inner : Loader.StepDef}

/-- The steps that a step runs are those that it is looked through for. -/
theorem runs_mem (h : step.Runs inner) :
    inner ∈ step.bodySteps ∨ ∃ branch ∈ step.branchSteps, inner ∈ branch := by
  cases h with
  | body _ hget hparse hmem =>
    left
    rwa [StepDef.bodySteps, hget, Option.bind_some, hparse, Option.getD_some]
  | branch _ hget hparse hbranch hmem =>
    refine Or.inr ⟨_, ?_, hmem⟩
    rwa [StepDef.branchSteps, hget, Option.bind_some, hparse, Option.getD_some]

/-! ## `walk_as_peer_refs` -/

/-- The walk finds no error in a step, nor in the steps it is looked through for. -/
structure AsPeerClean (network : Option Network) (step : Loader.StepDef) : Prop where
  here : ∃ pos, asPeerErrors network pos step = []
  body : walkAsPeerRefs network 0 step.bodySteps = []
  branches : walkAsPeerBranches network step.branchSteps = []

theorem walkAsPeerRefs_clean {network : Option Network} {i : Nat}
    (h : walkAsPeerRefs network i steps = []) : ∀ step ∈ steps, AsPeerClean network step := by
  induction steps generalizing i with
  | nil => simp
  | cons first rest ih =>
    rw [walkAsPeerRefs] at h
    simp only [List.append_eq_nil_iff] at h
    obtain ⟨⟨⟨hhere, hbody⟩, hbranches⟩, hrest⟩ := h
    intro step hstep
    rcases List.mem_cons.mp hstep with rfl | hstep
    · exact ⟨⟨_, hhere⟩, hbody, hbranches⟩
    · exact ih hrest step hstep

theorem walkAsPeerBranches_clean {network : Option Network} {branches : List (List Loader.StepDef)}
    (h : walkAsPeerBranches network branches = []) :
    ∀ branch ∈ branches, walkAsPeerRefs network 0 branch = [] := by
  induction branches with
  | nil => simp
  | cons first rest ih =>
    rw [walkAsPeerBranches] at h
    obtain ⟨hfirst, hrest⟩ := List.append_eq_nil_iff.mp h
    intro branch hbranch
    rcases List.mem_cons.mp hbranch with rfl | hbranch
    · exact hfirst
    · exact ih hrest branch hbranch

theorem AsPeerClean.runs {network : Option Network} (h : AsPeerClean network step)
    (hruns : step.Runs inner) : AsPeerClean network inner := by
  rcases runs_mem hruns with hmem | ⟨branch, hbranch, hmem⟩
  · exact walkAsPeerRefs_clean h.body inner hmem
  · exact walkAsPeerRefs_clean (walkAsPeerBranches_clean h.branches branch hbranch) inner hmem

/-- **`walk_as_peer_refs` leaves out no step.** -/
theorem reachable_asPeer {network : Option Network} (h : walkAsPeerRefs network 0 steps = [])
    (hstep : Reachable steps step) : ∃ pos, asPeerErrors network pos step = [] :=
  (hstep.induction (walkAsPeerRefs_clean h) fun _ _ hclean hruns => hclean.runs hruns).here

/-! ## `collect_connect_steps` -/

/-- Every `connect` step that is collected has an address of its own. -/
def AllOwn (collected : List (Nat × Bool) × Nat) : Prop := ∀ found ∈ collected.1, found.2 = true

/-- A `connect` step has an address of its own, and so have the steps that it is looked through
for. -/
structure OwnClean (step : Loader.StepDef) : Prop where
  here : step.kind = .leaf .connect → (step.get "target_address").isSome = true
  body : ∃ counter, AllOwn (collectConnectSteps step.bodySteps counter)
  branches : ∃ counter, AllOwn (collectInBranches step.branchSteps counter)

theorem collectConnectSteps_own {counter : Nat} (h : AllOwn (collectConnectSteps steps counter)) :
    ∀ step ∈ steps, OwnClean step := by
  induction steps generalizing counter with
  | nil => simp
  | cons first rest ih =>
    rw [collectConnectSteps] at h
    simp only [AllOwn, List.mem_append] at h
    intro step hstep
    rcases List.mem_cons.mp hstep with rfl | hstep
    · refine ⟨?_, ⟨_, fun found hfound => h found (Or.inl (Or.inl (Or.inr hfound)))⟩,
        ⟨_, fun found hfound => h found (Or.inl (Or.inr hfound))⟩⟩
      intro hkind
      refine h (counter, _) (Or.inl (Or.inl (Or.inl ?_)))
      rw [if_pos hkind]
      exact List.mem_singleton_self _
    · exact ih (fun found hfound => h found (Or.inr hfound)) step hstep

theorem collectInBranches_own {branches : List (List Loader.StepDef)} {counter : Nat}
    (h : AllOwn (collectInBranches branches counter)) :
    ∀ branch ∈ branches, ∃ counter, AllOwn (collectConnectSteps branch counter) := by
  induction branches generalizing counter with
  | nil => simp
  | cons first rest ih =>
    rw [collectInBranches] at h
    simp only [AllOwn, List.mem_append] at h
    intro branch hbranch
    rcases List.mem_cons.mp hbranch with rfl | hbranch
    · exact ⟨_, fun found hfound => h found (Or.inl hfound)⟩
    · exact ih (fun found hfound => h found (Or.inr hfound)) branch hbranch

theorem OwnClean.runs (h : OwnClean step) (hruns : step.Runs inner) : OwnClean inner := by
  rcases runs_mem hruns with hmem | ⟨branch, hbranch, hmem⟩
  · obtain ⟨counter, hbody⟩ := h.body
    exact collectConnectSteps_own hbody inner hmem
  · obtain ⟨counter, hbranches⟩ := h.branches
    obtain ⟨counter', hown⟩ := collectInBranches_own hbranches branch hbranch
    exact collectConnectSteps_own hown inner hmem

/-- **`collect_connect_steps` leaves out no step**: without an address in the scenario, every
`connect` step that a run can come to has the field. -/
theorem reachable_connect {scenario : Loader.Scenario}
    (h : validateConnectAddresses scenario = []) (hstep : Reachable scenario.steps step)
    (hkind : step.kind = .leaf .connect) :
    (step.get "target_address").isSome = true ∨ scenario.targetAddress.isSome = true := by
  cases haddress : scenario.targetAddress with
  | some addr => exact Or.inr rfl
  | none =>
    left
    have hfound := errorIf_eq_nil.mp h
    rw [haddress, Option.isNone_none, Bool.and_true] at hfound
    have hown : AllOwn (collectConnectSteps scenario.steps 0) := by
      intro found hmem
      have hnot := List.any_eq_false.mp hfound found hmem
      simpa using hnot
    exact (hstep.induction (collectConnectSteps_own hown) fun _ _ hclean hruns =>
      hclean.runs hruns).here hkind

/-! ## Steps without steps of their own -/

section

variable {rest : List Loader.StepDef} (hbody : step.get "body" = none)
  (hbranches : step.get "branches" = none)

include hbody hbranches

theorem walkAsPeerRefs_leaf {network : Option Network} {i : Nat}
    (hasPeer : step.get "as_peer" = none) :
    walkAsPeerRefs network i (step :: rest) = walkAsPeerRefs network (i + 1) rest := by
  have hbodySteps : step.bodySteps = [] := by rw [StepDef.bodySteps, hbody]; rfl
  have hbranchSteps : step.branchSteps = [] := by rw [StepDef.branchSteps, hbranches]; rfl
  rw [walkAsPeerRefs, hbodySteps, hbranchSteps, walkAsPeerRefs, walkAsPeerBranches, asPeerErrors,
    hasPeer]
  rfl

theorem collectConnectSteps_leaf {counter : Nat} :
    (collectConnectSteps (step :: rest) counter).1 =
      (if step.kind = .leaf .connect then [(counter, (step.get "target_address").isSome)] else []) ++
        (collectConnectSteps rest (counter + 1)).1 := by
  have hbodySteps : step.bodySteps = [] := by rw [StepDef.bodySteps, hbody]; rfl
  have hbranchSteps : step.branchSteps = [] := by rw [StepDef.branchSteps, hbranches]; rfl
  rw [collectConnectSteps, hbodySteps, hbranchSteps]
  simp only [collectConnectSteps, collectInBranches, List.append_nil]

end

/-! ## `validate_steps` -/

section

variable {serdeError : Value → String}

variable (serdeError) in
/-- The validation of a step, wherever it stands, pushes nothing. -/
def StepClean (step : Loader.StepDef) : Prop :=
  ∃ pos before after, validateStep serdeError pos step before = .ok ([], after)

theorem validateSteps_clean {i : Nat} {before after : Bool}
    (h : validateSteps serdeError i steps before = .ok ([], after)) :
    ∀ step ∈ steps, StepClean serdeError step := by
  induction steps generalizing i before with
  | nil => simp
  | cons first rest ih =>
    rw [validateSteps] at h
    obtain ⟨between, hfirst, hrest⟩ := Checked.andThen_clean.mp h
    intro step hstep
    rcases List.mem_cons.mp hstep with rfl | hstep
    · exact ⟨_, _, _, hfirst⟩
    · exact ih hrest step hstep

theorem validateBranches_clean {pos : String} {b : Nat} {items : List Value} {before after : Bool}
    (h : validateBranches serdeError pos b items before = .ok ([], after)) :
    ∀ v ∈ items, ∀ body, stepsOf v = some body → ∀ step ∈ body, StepClean serdeError step := by
  induction items generalizing b before with
  | nil => simp
  | cons first rest ih =>
    intro v hv body hparse step hstep
    rcases List.mem_cons.mp hv with rfl | hv
    · rw [validateBranches_cons hparse] at h
      obtain ⟨between, hfirst, -⟩ := Checked.andThen_clean.mp h
      exact validateSteps_clean hfirst step hstep
    · rw [validateBranches] at h
      obtain ⟨between, -, hrest⟩ := Checked.andThen_clean.mp h
      exact ih hrest v hv body hparse step hstep

/-- A branch that is parsed is one of the items. -/
theorem mem_of_mapM {α β : Type} {read : α → Option β} {items : List α} {results : List β}
    (h : items.mapM read = some results) {result : β} (hresult : result ∈ results) :
    ∃ item ∈ items, read item = some result := by
  induction items generalizing results with
  | nil =>
    cases h
    exact nomatch hresult
  | cons first rest ih =>
    rw [List.mapM_cons] at h
    simp only [Option.bind_eq_bind, Option.bind_eq_some_iff, Option.pure_def,
      Option.some.injEq] at h
    obtain ⟨r, hfirst, rs, hrest, rfl⟩ := h
    rcases List.mem_cons.mp hresult with rfl | hresult
    · exact ⟨first, List.mem_cons_self, hfirst⟩
    · obtain ⟨item, hitem, hread⟩ := ih hrest hresult
      exact ⟨item, List.mem_cons_of_mem _ hitem, hread⟩

theorem StepClean.runs (h : StepClean serdeError step) (hruns : step.Runs inner) :
    StepClean serdeError inner := by
  obtain ⟨pos, before, after, h⟩ := h
  cases hruns with
  | body hkind hget hparse hmem =>
    rw [validateStep_repeat hkind hget hparse] at h
    obtain ⟨between, -, h⟩ := Checked.andThen_clean.mp h
    obtain ⟨between', -, h⟩ := Checked.andThen_clean.mp h
    exact validateSteps_clean h inner hmem
  | @branch v branches branch _ hkind hget hparse hbranch hmem =>
    cases v with
    | array items =>
      obtain ⟨item, hitem, hread⟩ := mem_of_mapM hparse hbranch
      cases items with
      | nil => exact nomatch hitem
      | cons first rest =>
        rw [validateStep_parallel hkind hget] at h
        obtain ⟨between, -, h⟩ := Checked.andThen_clean.mp h
        exact validateBranches_clean h item hitem branch hread inner hmem
    | _ => exact nomatch hparse

/-- **`validate_steps` leaves out no step.** -/
theorem reachable_clean {i : Nat} {before after : Bool}
    (h : validateSteps serdeError i steps before = .ok ([], after))
    (hstep : Reachable steps step) : StepClean serdeError step :=
  hstep.induction (validateSteps_clean h) fun _ _ hclean hruns => hclean.runs hruns

/-- A step without steps of its own, of which nothing is wrong. -/
theorem validateStep_leaf_clean {kind : LeafKind} {pos : String} {before : Bool}
    (hkind : step.kind = .leaf kind) (hfields : fieldErrors pos step = [])
    (hleaf : leafErrors pos step before kind = .ok []) :
    validateStep serdeError pos step before =
      .ok ([], if kind = .chainSync then true else before) := by
  rw [validateStep_leaf hkind, hfields]
  refine Checked.andThen_clean.mpr ⟨before, rfl, ?_⟩
  rw [hleaf]
  rfl

/-- What has been checked of a step without steps of its own. -/
theorem StepClean.leaf {kind : LeafKind} (h : StepClean serdeError step)
    (hkind : step.kind = .leaf kind) :
    ∃ pos before, fieldErrors pos step = [] ∧ leafErrors pos step before kind = .ok [] := by
  obtain ⟨pos, before, after, h⟩ := h
  rw [validateStep_leaf hkind] at h
  obtain ⟨between, hpushed, h⟩ := Checked.andThen_clean.mp h
  have hfields := (Prod.mk.inj (Except.ok.inj hpushed)).1
  obtain ⟨errors, hleaf, h⟩ := bind_eq_ok.mp h
  obtain ⟨rfl, -⟩ := Prod.mk.inj (Except.ok.inj h)
  exact ⟨pos, between, hfields, hleaf⟩

end

end ConformanceHarness.Proof
