import ConformanceHarness.Proof.DialedAddresses

/-!
# The points of a `block_fetch` step

`validate` lets a `block_fetch` step use the points of a `chain_sync` step if there is one before it
in the text of the scenario, on whatever connection, in whatever body or branch. When the step
runs, it takes the points that its connection has, and fails if there are none.
-/

namespace ConformanceHarness.Proof

open ConformanceHarness.Loader
open ConformanceHarness.Runner (LeafKind)

/-! ## In the text -/

mutual

/-- Steps in the order in which `validate_steps` comes to them. -/
def inText : List Loader.StepDef → List Loader.StepDef
  | [] => []
  | step :: rest =>
    let inside := match step.kind with
      | .leaf _ => []
      | .repeat => inText step.bodySteps
      | .parallel => inTextBranches step.branchSteps
    step :: (inside ++ inText rest)
termination_by steps => stepsWeight steps
decreasing_by
  · have hbody := step.bodySteps_le
    simp only [stepsWeight_cons]
    omega
  · have hbranches := step.branchSteps_le
    simp only [stepsWeight_cons]
    omega
  · simp only [stepsWeight_cons]
    omega

/-- The steps of branches. -/
def inTextBranches : List (List Loader.StepDef) → List Loader.StepDef
  | [] => []
  | branch :: rest => inText branch ++ inTextBranches rest
termination_by branches => branchesWeight branches
decreasing_by all_goals simp only [branchesWeight_cons]; omega

end

/-- A `block_fetch` step whose text says `from_chain_sync`, or nothing. -/
def UsesChainSync (step : Loader.StepDef) : Prop :=
  step.kind = .leaf .blockFetch ∧
    (step.get "points" = none ∨ step.get "points" = some (.string "from_chain_sync"))

/-- Every step that uses the points of a `chain_sync` step comes after one; `before` and `after` say
whether there has been one. -/
inductive Covered : Bool → List Loader.StepDef → Bool → Prop where
  | nil (before : Bool) : Covered before [] before
  | cons {before after : Bool} {step : Loader.StepDef} {rest : List Loader.StepDef}
      (huses : UsesChainSync step → before = true)
      (hrest : Covered (before || step.kind = .leaf .chainSync) rest after) :
      Covered before (step :: rest) after

theorem Covered.append {a b c : Bool} {first second : List Loader.StepDef} (h : Covered a first b)
    (h' : Covered b second c) : Covered a (first ++ second) c := by
  induction h with
  | nil before => exact h'
  | cons huses _ ih => exact .cons huses (ih h')

theorem Covered.split {a c : Bool} {first rest : List Loader.StepDef} {step : Loader.StepDef}
    (h : Covered a (first ++ step :: rest) c) (huses : UsesChainSync step) :
    a = true ∨ ∃ sync ∈ first, sync.kind = .leaf .chainSync := by
  induction first generalizing a with
  | nil =>
    cases h with
    | cons hstep _ => exact Or.inl (hstep huses)
  | cons head tail ih =>
    cases h with
    | cons _ hrest =>
      rcases ih hrest with hbefore | ⟨sync, hsync, hkind⟩
      · rcases Bool.or_eq_true_iff.mp hbefore with hbefore | hhead
        · exact Or.inl hbefore
        · exact Or.inr ⟨head, List.mem_cons_self, of_decide_eq_true hhead⟩
      · exact Or.inr ⟨sync, List.mem_cons_of_mem _ hsync, hkind⟩

section

variable {serdeError : Value → String}

/-- The check of a `block_fetch` step. -/
theorem blockFetchErrors_clean {pos : String} {step : Loader.StepDef} {hasChainSync : Bool}
    (h : blockFetchErrors pos step hasChainSync = .ok []) (huses : UsesChainSync step) :
    hasChainSync = true := by
  unfold blockFetchErrors at h
  obtain ⟨errors, hfirst, h⟩ := bind_eq_ok.mp h
  obtain ⟨errors', -, h⟩ := bind_eq_ok.mp h
  obtain rfl := (List.append_eq_nil_iff.mp (Except.ok.inj h)).1
  have hfound := errorIf_eq_nil.mp (Except.ok.inj hfirst)
  rcases huses.2 with hpoints | hpoints
  · rw [hpoints] at hfound
    simpa using hfound
  · rw [hpoints] at hfound
    simpa using hfound

/-- A step without steps of its own. -/
theorem validateStep_leaf_covered {pos : String} {step : Loader.StepDef} {kind : LeafKind}
    {before after : Bool} (hkind : step.kind = .leaf kind)
    (h : validateStep serdeError pos step before = .ok ([], after)) :
    Covered before [step] after := by
  rw [validateStep_leaf hkind] at h
  obtain ⟨between, hfields, h⟩ := Checked.andThen_clean.mp h
  obtain rfl := (Prod.mk.inj (Except.ok.inj hfields)).2
  obtain ⟨errors, hleaf, h⟩ := bind_eq_ok.mp h
  obtain ⟨rfl, rfl⟩ := Prod.mk.inj (Except.ok.inj h)
  have hafter : (if kind = .chainSync then true else before) =
      (before || step.kind = .leaf .chainSync) := by
    rw [hkind]
    by_cases hsync : kind = .chainSync
    · subst hsync
      simp
    · simp [hsync]
  rw [hafter]
  refine .cons ?_ (.nil _)
  intro huses
  obtain rfl := StepKind.leaf.inj (hkind.symm.trans huses.1)
  exact blockFetchErrors_clean hleaf huses

theorem inText_cons (step : Loader.StepDef) (rest : List Loader.StepDef) :
    inText (step :: rest) = step :: ((match step.kind with
      | .leaf _ => []
      | .repeat => inText step.bodySteps
      | .parallel => inTextBranches step.branchSteps) ++ inText rest) := by
  rw [inText]

/-- A check that pushes an error is not clean. -/
theorem pushed_not_clean {message : String} {errors : List String} {before after : Bool} :
    (Except.ok (message :: errors, before) : Checked) ≠ .ok ([], after) := by
  intro h
  exact nomatch (Prod.mk.inj (Except.ok.inj h)).1

mutual

/-- What `validate_steps` accepts is covered, in the order of the text. -/
theorem validateSteps_covered : ∀ (i : Nat) (steps : List Loader.StepDef) (before after : Bool),
    validateSteps serdeError i steps before = .ok ([], after) → Covered before (inText steps) after
  | i, [], before, after, h => by
    rw [validateSteps] at h
    obtain rfl := (Prod.mk.inj (Except.ok.inj h)).2
    rw [inText]
    exact .nil before
  | i, step :: rest, before, after, h => by
    rw [validateSteps] at h
    obtain ⟨between, hstep, hrest⟩ := Checked.andThen_clean.mp h
    have hcovered := validateSteps_covered (i + 1) rest between after hrest
    -- a control step does not set the flag itself, only the steps inside it do
    have hother : ∀ {inside : List Loader.StepDef}, (∀ kind, step.kind ≠ .leaf kind) →
        Covered before inside between → Covered before (step :: inside) between := by
      intro inside hkind hinside
      have hsame : (before || decide (step.kind = .leaf .chainSync)) = before := by
        rw [decide_eq_false (hkind .chainSync), Bool.or_false]
      refine .cons (fun huses => absurd huses.1 (hkind _)) ?_
      rwa [hsame]
    rw [inText_cons]
    cases hkind : step.kind with
    | leaf kind => exact (validateStep_leaf_covered hkind hstep).append hcovered
    | «repeat» =>
      -- what the checks of the fields accept is read the same way for the text
      have hbody : Covered before (inText step.bodySteps) between := by
        rw [validateStep, hkind] at hstep
        obtain ⟨b₁, hfields, hstep⟩ := Checked.andThen_clean.mp hstep
        obtain ⟨b₂, htimes, hstep⟩ := Checked.andThen_clean.mp hstep
        obtain rfl := (Prod.mk.inj (Except.ok.inj hfields)).2
        obtain rfl := (Prod.mk.inj (Except.ok.inj htimes)).2
        split at hstep
        · exact absurd hstep pushed_not_clean
        · next v hget =>
          -- a body that does not parse is objected to
          split at hstep
          · next body hparse =>
            have hsteps : step.bodySteps = body := by
              rw [StepDef.bodySteps, hget, Option.bind_some, hparse, Option.getD_some]
            rw [hsteps]
            exact validateSteps_covered 0 body before between hstep
          · exact absurd hstep pushed_not_clean
      exact (hother (fun kind h => nomatch hkind.symm.trans h) hbody).append hcovered
    | parallel =>
      -- the branches are looked at one after the other, as in the text
      have hbranches : Covered before (inTextBranches step.branchSteps) between := by
        rw [validateStep, hkind] at hstep
        obtain ⟨b₁, hfields, hstep⟩ := Checked.andThen_clean.mp hstep
        obtain rfl := (Prod.mk.inj (Except.ok.inj hfields)).2
        dsimp only at hstep
        split at hstep
        · exact absurd hstep pushed_not_clean
        · exact absurd hstep pushed_not_clean
        · next items _ hget =>
          obtain ⟨branches, hparse, hbranches⟩ :=
            validateBranches_covered (stepPos i step) 0 items before between hstep
          have hsteps : step.branchSteps = branches := by
            rw [StepDef.branchSteps, hget, Option.bind_some]
            show (items.mapM stepsOf).getD [] = branches
            rw [hparse, Option.getD_some]
          rwa [hsteps]
        · exact absurd hstep pushed_not_clean
      exact (hother (fun kind h => nomatch hkind.symm.trans h) hbranches).append hcovered
termination_by _ steps => stepsWeight steps
decreasing_by
  · simp only [stepsWeight_cons]
    omega
  · have hsmall := StepDef.get_lt ‹step.get "body" = some _›
    have hlt := stepsOf_lt ‹stepsOf _ = some _›
    simp only [stepsWeight_cons]
    omega
  · have hsmall := StepDef.get_lt ‹step.get "branches" = some (.array _)›
    simp only [Value.array.sizeOf_spec] at hsmall
    simp only [stepsWeight_cons]
    omega

theorem validateBranches_covered : ∀ (pos : String) (b : Nat) (items : List Value)
    (before after : Bool), validateBranches serdeError pos b items before = .ok ([], after) →
    ∃ branches, items.mapM stepsOf = some branches ∧ Covered before (inTextBranches branches) after
  | pos, b, [], before, after, h => by
    rw [validateBranches] at h
    obtain rfl := (Prod.mk.inj (Except.ok.inj h)).2
    refine ⟨[], rfl, ?_⟩
    rw [inTextBranches]
    exact .nil before
  | pos, b, v :: rest, before, after, h => by
    cases hparse : stepsOf v with
    | none =>
      rw [validateBranches] at h
      obtain ⟨between, hfirst, -⟩ := Checked.andThen_clean.mp h
      split at hfirst
      · next body hbody => exact nomatch hparse.symm.trans hbody
      · exact absurd hfirst pushed_not_clean
    | some body =>
      rw [validateBranches_cons hparse] at h
      obtain ⟨between, hfirst, hrest⟩ := Checked.andThen_clean.mp h
      obtain ⟨branches, hbranches, hcovered⟩ :=
        validateBranches_covered pos (b + 1) rest between after hrest
      refine ⟨body :: branches, ?_, ?_⟩
      · simp [List.mapM_cons, hparse, hbranches]
      · rw [inTextBranches]
        -- the flag goes from one branch to the next
        exact (validateSteps_covered 0 body before between hfirst).append hcovered
termination_by _ _ items => sizeOf items
decreasing_by
  · simp only [List.cons.sizeOf_spec]
    omega
  · have hlt := stepsOf_lt hparse
    simp only [List.cons.sizeOf_spec]
    omega

end

end

end ConformanceHarness.Proof

namespace ConformanceHarness.Concurrent

open ConformanceHarness.Lib
open ConformanceHarness.Lib.Scope (live seq)
open ConformanceHarness.Proof
open ConformanceHarness.Runner (LeafKind)

variable {S : Setting} {frame : Bool} {steps : List Loader.StepDef}

/-! ## On a connection -/

/-- The points a connection has are those of a `chain_sync` step on it. -/
def Connection.PointsCollected (conn : Connection) : Prop :=
  conn.lastChainSyncPoints = [] ∨ conn.lastChainSyncPoints ∈ conn.collected

theorem Use.pointsCollected {f : Connection → Connection} (h : Use f) {conn : Connection}
    (hconn : conn.PointsCollected) : (f conn).PointsCollected := by
  cases h with
  | channel channel => exact hconn
  | startWorkers version => exact hconn
  | storePoints points => exact Or.inr (List.mem_append_right _ (List.mem_singleton_self points))
  | fetchPoints => exact Or.inl rfl

/-- So they are on every connection, and so is what has been taken from one. -/
structure PointsKnown (s : State) : Prop where
  connection : ∀ id, (s.conns.connection id).PointsCollected
  fetched : ∀ conn points, (conn, points) ∈ s.fetched → points ≠ [] ∧ points ∈ conn.collected

theorem pointsCollected_update {conns : Connections} {id : Nat} {f : Connection → Connection}
    (hf : ∀ conn, conn.PointsCollected → (f conn).PointsCollected)
    (h : ∀ id, (conns.connection id).PointsCollected) :
    ∀ other, ((conns.update id f).connection other).PointsCollected := by
  intro other
  show (Function.update conns.connection id _ other).PointsCollected
  by_cases hid : other = id
  · subst hid
    rw [Function.update_self]
    exact hf _ (h other)
  · rw [Function.update_of_ne hid]
    exact h other

/-- Preserved by every action. -/
theorem Effect.pointsCollected {held : List Action} {a : Action} {s s' : State} {rest : Prog}
    (h : Effect S frame steps held a s s' rest)
    (hpoints : ∀ id, (s.conns.connection id).PointsCollected) :
    ∀ id, (s'.conns.connection id).PointsCollected := by
  have habort : ∀ conn : Connection, conn.PointsCollected → conn.abort.PointsCollected :=
    fun _ hconn => hconn
  cases h with
  | quiet _ h =>
    rw [h.conns]
    exact hpoints
  | requests _ _ _ h =>
    rw [h.conns]
    exact hpoints
  | grants _ _ _ _ _ _ _ _ hconns _ _ =>
    rw [hconns]
    exact hpoints
  | opens side l conn _ _ _ hnew h =>
    rw [h.conns]
    intro id
    show (Function.update s.conns.connection s.conns.next conn id).PointsCollected
    -- a connection that is opened has no points
    by_cases hid : id = s.conns.next
    · subst hid
      rw [Function.update_self]
      exact Or.inl hnew
    · rw [Function.update_of_ne hid]
      exact hpoints id
  | takes side l kind token _ htake _ _ _ =>
    rw [(Connections.take_eq_some htake).2.2.2]
    simpa using hpoints
  | uses token outer f _ _ huse h =>
    rw [h.conns]
    exact pointsCollected_update (fun _ hconn => huse.pointsCollected hconn) hpoints
  | startsWorkers token outer version _ _ _ _ h =>
    rw [h.conns]
    exact pointsCollected_update (fun _ hconn => (Use.startWorkers version).pointsCollected hconn)
      hpoints
  | disconnects l id event conns _ hdisconnect h =>
    rw [h.conns, (Connections.disconnect_eq_some hdisconnect).2]
    exact pointsCollected_update habort hpoints
  | listens l _ h =>
    rw [h.conns]
    exact hpoints
  | unlistens l _ _ _ h =>
    rw [h.conns]
    exact hpoints
  | drains side order _ _ h =>
    rw [h.conns]
    cases side <;> exact hpoints
  | clears _ h =>
    rw [h.conns]
    exact hpoints
  | closesNext name id more event _ _ h =>
    rw [h.conns]
    exact pointsCollected_update habort hpoints

theorem pointsKnown_preserves :
    Preserves (machine S) (Genuine S frame steps) PointsKnown := by
  refine preserves_of ?_ ?_ ?_
  · intro held a s s' rest h ha hknown
    refine ⟨(exec_effect h ha).pointsCollected hknown.connection, ?_⟩
    have hsame : s'.fetched = s.fetched → ∀ conn points, (conn, points) ∈ s'.fetched →
        points ≠ [] ∧ points ∈ conn.collected := fun heq => heq ▸ hknown.fetched
    cases exec_net h with
    | vars _ _ h => exact hsame h.fetched
    | begins _ _ _ h => exact hsame h.fetched
    | inits _ _ _ _ _ h => exact hsame h.fetched
    | appends _ _ _ h => exact hsame h.fetched
    | advances _ _ _ _ _ h => exact hsame h.fetched
    | ticks _ _ _ _ _ h => exact hsame h.fetched
    | dials _ _ _ _ hfetched => exact hsame hfetched
    | fetches l token outer _ _ hpoints _ _ hfetched =>
      -- the one action that records: it takes the points of the connection in hand
      intro conn points hmem
      rw [hfetched] at hmem
      rcases List.mem_append.mp hmem with hmem | hmem
      · exact hknown.fetched conn points hmem
      · obtain ⟨rfl, rfl⟩ := Prod.mk.inj (List.mem_singleton.mp hmem)
        exact ⟨hpoints, (hknown.connection token.id).resolve_left hpoints⟩
  · intro a s hknown
    refine ⟨?_, ?_⟩
    · cases a with
      | checkedOut token =>
        simpa [drop, Connections.putBack, Connections.insertAs] using hknown.connection
      | _ => exact hknown.connection
    · rw [(drop_unrecorded a s).fetched]
      exact hknown.fetched
  · intro s s' h hknown
    refine ⟨?_, ?_⟩
    · rw [ambient_conns h]
      exact hknown.connection
    · rw [(ambient_unrecorded h).fetched]
      exact hknown.fetched

/-- **What is known of a `block_fetch` step that uses the points of a `chain_sync` step.** In the
text of an accepted scenario it comes after one. When it runs, it takes points that a `chain_sync`
step has collected on the connection it has checked out, since that was opened; or it fails. -/
theorem from_chain_sync_points {serdeError : Value → String}
    (haccepted : Loader.Accepted serdeError S.scenario) :
    (∀ before step after, inText S.scenario.steps = before ++ step :: after → UsesChainSync step →
      ∃ sync ∈ before, sync.kind = .leaf .chainSync) ∧
    ∀ c s, Scope.Reaches (machine S) (run S, .initial) (c, s) →
      (∀ conn points, (conn, points) ∈ s.fetched → points ≠ [] ∧ points ∈ conn.collected) ∧
      ∀ l held s' rest, exec S held (.fetchPoints l) s s' rest →
        (s' = s ∧ rest =
          let name := l.onName
          failWith (s!"block_fetch: from_chain_sync but no chain_sync points " ++
            s!"on connection \"{name}\"")) ∨
        ∃ token outer, held = .checkedOut token :: outer ∧ rest = .done ∧
          s'.fetched = s.fetched ++ [(s.conns.connection token.id,
            (s.conns.connection token.id).lastChainSyncPoints)] ∧
          (s.conns.connection token.id).lastChainSyncPoints ≠ [] ∧
          (s.conns.connection token.id).lastChainSyncPoints ∈
            (s.conns.connection token.id).collected := by
  refine ⟨?_, ?_⟩
  · intro before step after htext huses
    -- the flag is false at the first step, so some step before this one has set it
    obtain ⟨hasChainSync, hsteps⟩ := (Loader.accepted_iff.mp haccepted).2.1
    have hcovered := validateSteps_covered 0 S.scenario.steps false hasChainSync hsteps
    rw [htext] at hcovered
    exact (hcovered.split huses).resolve_left Bool.false_ne_true
  · intro c s h
    have hinitial : PointsKnown .initial := ⟨fun _ => Or.inl rfl, fun _ _ h => nomatch h⟩
    have hknown := (pointsKnown_preserves.reachesIn h (Code.genuine run_code) hinitial).2
    refine ⟨hknown.fetched, ?_⟩
    intro l held s' rest hexec
    obtain ⟨token, outer, hheld, hexec⟩ := hexec
    dsimp only at hexec
    split at hexec
    · obtain ⟨rfl, rfl⟩ := hexec
      exact Or.inl ⟨rfl, rfl⟩
    · next hpoints =>
      obtain ⟨rfl, rfl⟩ := hexec
      exact Or.inr ⟨token, outer, hheld, rfl, rfl, hpoints,
        (hknown.connection token.id).resolve_left hpoints⟩

/-! ## A body that runs no times -/

/-- `chain_sync`, as it is parsed from a body. -/
def chainSyncStep : Loader.StepDef := plainStep (.leaf .chainSync) []

/-- `block_fetch`. -/
def blockFetchStep : Loader.StepDef := plainStep (.leaf .blockFetch) []

/-- A `repeat` step with a `chain_sync` step in its body. -/
def noSyncs : Loader.StepDef := plainStep .repeat
  [("body", .array [.object [("kind", .string "chain_sync")]]), ("times", .number (.unsigned 0))]

/-- A connection, steps, and a `block_fetch` step. -/
def fetchScenario (sync : Loader.StepDef) : Loader.Scenario where
  name := "t"
  targetAddress := some "localhost:3001"
  network := none
  steps := [connectStep, sync, blockFetchStep]

theorem fetchScenario_accepted {sync : Loader.StepDef}
    (hsync : Loader.validateStep (fun _ => "") (Loader.stepPos 1 sync) sync false = .ok ([], true))
    (hmodes : Loader.modeErrors (fetchScenario sync).steps = [])
    (hopen : Loader.validateConnectionNames 0 (fetchScenario sync).steps .empty = [])
    (hpeers : Loader.walkAsPeerRefs none 1 [sync, blockFetchStep] = []) :
    Loader.Accepted (fun _ => "") (fetchScenario sync) := by
  have hconnect : Loader.validateStep (fun _ => "") (Loader.stepPos 0 connectStep) connectStep
      false = .ok ([], if LeafKind.connect = .chainSync then true else false) :=
    validateStep_leaf_clean rfl rfl rfl
  have hfetch : Loader.validateStep (fun _ => "") (Loader.stepPos 2 blockFetchStep) blockFetchStep
      true = .ok ([], if LeafKind.blockFetch = .chainSync then true else true) :=
    validateStep_leaf_clean rfl rfl rfl
  have hsteps : Loader.validateSteps (fun _ => "") 0 (fetchScenario sync).steps false =
      .ok ([], true) := by
    rw [fetchScenario, Loader.validateSteps]
    refine Loader.Checked.andThen_clean.mpr ⟨false, hconnect, ?_⟩
    rw [Loader.validateSteps]
    refine Loader.Checked.andThen_clean.mpr ⟨true, hsync, ?_⟩
    rw [Loader.validateSteps]
    refine Loader.Checked.andThen_clean.mpr ⟨true, hfetch, ?_⟩
    rw [Loader.validateSteps]
  have hwalk : Loader.walkAsPeerRefs none 0 (fetchScenario sync).steps = [] := by
    rw [fetchScenario, walkAsPeerRefs_plain rfl]
    exact hpeers
  exact Loader.accepted_iff.mpr ⟨hmodes, ⟨true, hsteps⟩, hopen,
    Loader.errorIf_eq_nil.mpr (Bool.and_false _), rfl, hwalk⟩

/-- The step has come to an end, so there is one before `block_fetch`. -/
theorem chainSyncStep_accepted : Loader.Accepted (fun _ => "") (fetchScenario chainSyncStep) := by
  have hsync : Loader.validateStep (fun _ => "") (Loader.stepPos 1 chainSyncStep) chainSyncStep
      false = .ok ([], if LeafKind.chainSync = .chainSync then true else false) :=
    validateStep_leaf_clean rfl rfl rfl
  refine fetchScenario_accepted hsync rfl rfl ?_
  rw [walkAsPeerRefs_plain rfl, walkAsPeerRefs_plain rfl, Loader.walkAsPeerRefs]

theorem noSyncs_accepted : Loader.Accepted (fun _ => "") (fetchScenario noSyncs) := by
  have hbody : Loader.validateSteps (fun _ => "") 0 [chainSyncStep] false = .ok ([], true) := by
    have hsync : Loader.validateStep (fun _ => "") (Loader.stepPos 0 chainSyncStep) chainSyncStep
        false = .ok ([], if LeafKind.chainSync = .chainSync then true else false) :=
      validateStep_leaf_clean rfl rfl rfl
    rw [Loader.validateSteps]
    refine Loader.Checked.andThen_clean.mpr ⟨true, hsync, ?_⟩
    rw [Loader.validateSteps]
  have hparse : Loader.stepsOf (.array [.object [("kind", .string "chain_sync")]]) =
      some [chainSyncStep] := rfl
  refine fetchScenario_accepted ?_ rfl rfl ?_
  · rw [Loader.validateStep_repeat rfl rfl hparse]
    refine Loader.Checked.andThen_clean.mpr ⟨false, rfl, ?_⟩
    exact Loader.Checked.andThen_clean.mpr ⟨false, rfl, hbody⟩
  · have hsteps : noSyncs.bodySteps = [chainSyncStep] := rfl
    have hbranches : noSyncs.branchSteps = [] := rfl
    rw [Loader.walkAsPeerRefs, hsteps, hbranches, walkAsPeerRefs_plain rfl, Loader.walkAsPeerRefs,
      Loader.walkAsPeerBranches, walkAsPeerRefs_plain rfl, Loader.walkAsPeerRefs]
    rfl

/-! ## Runs -/

/-- The `block_fetch` step under way. -/
def fetchLeaf : Leaf := ⟨blockFetchStep, default, .object []⟩

/-- The connection is dialed, and has the number 0. -/
theorem fetchScenario_connects (sync : Loader.StepDef) :
    ComesTo (bareSetting (fetchScenario sync)) [] (run (bareSetting (fetchScenario sync))) .initial
      (runSteps 1 [sync, blockFetchStep])
      { State.initial with
        dialed := [⟨connectStep, default, "localhost:3001"⟩]
        conns := Connections.initial.openAs .client connectStep (.opened "default") } := by
  have hconnect : Literal connectStep .connect default := ⟨rfl, rfl, rfl, fun _ => rfl⟩
  exact .bind (prelude_comesTo rfl rfl) (runSteps_comesTo (hconnect.comesTo connect_comesTo) .refl)

theorem noSyncs_comesTo {S : Setting} {s : State} :
    ComesTo S [] (runStep 1 noSyncs) s .done s := by
  have hsub : substituteInValue (substituted noSyncs) s.net.vars =
      .ok (.object [("times", .number (.unsigned 0))], []) := rfl
  refine runStep_comesTo hsub rfl ?_
  exact .refl

/-- **`validate` accepts a scenario that comes to `block_fetch` without points.** -/
theorem no_chain_sync_before : Loader.Accepted (fun _ => "") (fetchScenario noSyncs) ∧
    ∃ c s token, Scope.Reaches (machine (bareSetting (fetchScenario noSyncs)))
      (run (bareSetting (fetchScenario noSyncs)), .initial) (c, s) ∧
        live c = [.checkedOut token, .fetchPoints fetchLeaf] ∧
        UsesChainSync fetchLeaf.step ∧ (s.conns.connection token.id).collected = [] := by
  have hfetch : Literal blockFetchStep .blockFetch default := ⟨rfl, rfl, rfl, fun _ => rfl⟩
  obtain ⟨t, -, hreach⟩ := ComesTo.reaches ((fetchScenario_connects noSyncs).trans
    (runSteps_comesTo noSyncs_comesTo (runSteps_inside (hfetch.inside
      (take_inside rfl (.bind (takeChannel_comesTo rfl) .refl))))))
  exact ⟨noSyncs_accepted, _, _, ⟨.client, "default", 0⟩, hreach, rfl, ⟨rfl, Or.inl rfl⟩, rfl⟩

section

variable {S : Setting} {held : List Action} {s : State} {l : Leaf} {token : Token}

/-- The points that a session has collected. -/
theorem storePoints_comesTo (points : List Point) (houtput : l.step.output = none) :
    ComesTo S (.checkedOut token :: held) (.act (.storePoints l)) s .done
      { s with conns := s.conns.update token.id (·.storePoints points) } := by
  refine ComesTo.trans (d := .act .io) (.act fun t => ⟨token, held, rfl, points, rfl, ?_⟩)
    (.act fun t => ⟨rfl, Or.inl rfl⟩)
  rw [houtput]

theorem fetchPoints_comesTo (h : (s.conns.connection token.id).lastChainSyncPoints ≠ []) :
    ComesTo S (.checkedOut token :: held) (.act (.fetchPoints l)) s .done
      { s with
        conns := s.conns.update token.id fun conn => { conn with lastChainSyncPoints := [] }
        fetched := s.fetched ++ [(s.conns.connection token.id,
          (s.conns.connection token.id).lastChainSyncPoints)] } := by
  refine .act fun t => ⟨token, held, rfl, ?_⟩
  dsimp only
  rw [if_neg h]
  exact ⟨rfl, rfl⟩

end

theorem fetchScenario_fetches : ∃ c s,
    Scope.Reaches (machine (bareSetting (fetchScenario chainSyncStep)))
      (run (bareSetting (fetchScenario chainSyncStep)), .initial) (c, s) ∧
    ∃ conn, (conn, [.origin]) ∈ s.fetched := by
  have hsync : Literal chainSyncStep .chainSync default := ⟨rfl, rfl, rfl, fun _ => rfl⟩
  have hfetch : Literal blockFetchStep .blockFetch default := ⟨rfl, rfl, rfl, fun _ => rfl⟩
  obtain ⟨t, -, hreach⟩ := ComesTo.reaches ((fetchScenario_connects chainSyncStep).trans
    (runSteps_comesTo
      (hsync.comesTo (take_comesTo rfl (.bind (takeChannel_comesTo rfl)
        (.bind session_comesTo (storePoints_comesTo [.origin] rfl)))))
      (runSteps_inside (hfetch.inside (take_inside rfl (.bind (takeChannel_comesTo rfl)
        (.bind (fetchPoints_comesTo (List.cons_ne_nil _ _)) .refl)))))))
  exact ⟨_, _, hreach, _, List.mem_append_right _ List.mem_cons_self⟩

theorem from_chain_sync_points_taken : ∃ (s : State) (conn : Connection),
    (conn, [.origin]) ∈ s.fetched ∧ [.origin] ∈ conn.collected := by
  obtain ⟨c, s, hreach, conn, hmem⟩ := fetchScenario_fetches
  have hpoints := from_chain_sync_points (S := bareSetting (fetchScenario chainSyncStep))
    chainSyncStep_accepted
  exact ⟨s, conn, hmem, ((hpoints.2 c s hreach).1 conn _ hmem).2⟩

end ConformanceHarness.Concurrent
