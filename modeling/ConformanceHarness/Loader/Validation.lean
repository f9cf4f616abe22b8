import ConformanceHarness.Loader.StepDef
import ConformanceHarness.Scenario.Point
import ConformanceHarness.Scenario.Validate
import Mathlib.Data.Finset.Basic

/-!
# Validation of a scenario

`validate` of `scenario/mod.rs`: what a scenario has to pass before it is run. Each part answers
the errors it pushes. A point that does not slice at a character boundary makes it panic.

`serdeError` is what `serde` says of a list of steps that does not parse.
-/

namespace ConformanceHarness.Loader

open ConformanceHarness.Runner (LeafKind)

/-- `Network`. -/
structure Network where
  peers : List Peer
  startSlot : Option UInt64

/-- `Scenario`, as far as its validation reads it. -/
structure Scenario where
  name : String
  targetAddress : Option String
  network : Option Network
  steps : List StepDef

/-- `step[{i}] ({kind})`. -/
def stepPos (i : Nat) (step : StepDef) : String :=
  let kind := step.kind.asStr
  s!"step[{i}] ({kind})"

/-- One error, if there is one. -/
def errorIf (found : Bool) (message : String) : List String := if found then [message] else []

/-! ## `validate_steps` -/

/-- The errors a part of the validation pushes. -/
abbrev Pushed := Except Fault (List String)

/-- Two parts, one after the other. -/
def Pushed.append (first second : Pushed) : Pushed := do return (← first) ++ (← second)

/-- The errors of steps, and `has_chain_sync` after them. -/
abbrev Checked := Except Fault (List String × Bool)

/-- Some steps, and then others. -/
def Checked.andThen (first : Checked) (next : Bool → Checked) : Checked := do
  let (errors, hasChainSync) ← first
  let (errors', hasChainSync') ← next hasChainSync
  return (errors ++ errors', hasChainSync')

/-- Steps one after the other push nothing if none of them does. -/
theorem Checked.andThen_clean {first : Checked} {next : Bool → Checked} {hasChainSync : Bool} :
    first.andThen next = .ok ([], hasChainSync) ↔
      ∃ between, first = .ok ([], between) ∧ next between = .ok ([], hasChainSync) := by
  unfold Checked.andThen
  constructor
  · intro h
    obtain ⟨⟨errors, between⟩, hfirst, h⟩ := bind_eq_ok.mp h
    obtain ⟨⟨errors', hasChainSync'⟩, hnext, h⟩ := bind_eq_ok.mp h
    obtain ⟨hnil, rfl⟩ := Prod.mk.inj (Except.ok.inj h)
    obtain ⟨rfl, rfl⟩ := List.append_eq_nil_iff.mp hnil
    exact ⟨between, hfirst, hnext⟩
  · intro h
    obtain ⟨between, hfirst, hnext⟩ := h
    exact bind_eq_ok.mpr ⟨_, hfirst, bind_eq_ok.mpr ⟨_, hnext, rfl⟩⟩

/-- The check of one point. -/
def pointErrors (pos label : String) (j : Nat) (s : String) : Pushed :=
  match parsePoint s with
  | .ok _ => .ok []
  | .error (.err chain) =>
    let e := chain.headD ""
    .ok [s!"{pos}: {label}[{j}] \"{s}\" is invalid: {e}"]
  | .error (.panic reason) => .error (.panic reason)

/-- The check of the points of a list, from the one at `j` on. -/
def pointsErrors (pos label : String) : Nat → List Value → Pushed
  | _, [] => .ok []
  | j, v :: rest =>
    let here : Pushed := match v with
      | .string s => if v.isRef then .ok [] else pointErrors pos label j s
      | _ => .ok []
    here.append (pointsErrors pos label (j + 1) rest)

/-- The checks at the top of `validate_step`. -/
def fieldErrors (pos : String) (step : StepDef) : List String :=
  errorIf ((step.get "target_address").isSome && step.kind ≠ .leaf .connect)
      s!"{pos}: target_address is only valid on connect steps" ++
    errorIf ((step.get "peer_id").isSome && !(step.kind = .leaf .connect ||
        step.kind = .leaf .acceptHandshake || step.kind = .leaf .emitPeerEvent ||
        step.kind = .leaf .peerExtendsChain))
      (s!"{pos}: peer_id is only valid on connect, accept_handshake, " ++
        s!"emit_peer_event, and peer_extends_chain steps")

/-- A parameter that has to be there. -/
def requires (step : StepDef) (key message : String) : List String :=
  errorIf (step.get key).isNone message

/-- The arm of `BlockFetch`. -/
def blockFetchErrors (pos : String) (step : StepDef) (hasChainSync : Bool) : Pushed :=
  let points := step.get "points"
  let isFromCs := match points with
    | none => true
    | some (.string s) => s = "from_chain_sync"
    | some _ => false
  Pushed.append
    (.ok (errorIf (isFromCs && !hasChainSync)
      s!"{pos}: points = \"from_chain_sync\" but no chain_sync step precedes this"))
    (match points with
      | some (.array pts) => pointsErrors pos "points" 0 pts
      | _ => .ok [])

/-- The arm of `LeiosFetch`. -/
def leiosFetchErrors (pos : String) (step : StepDef) : Pushed :=
  match step.get "points" with
  | none => .ok [s!"{pos}: leios_fetch requires points"]
  | some (.array pts) => pointsErrors pos "points" 0 pts
  | some _ => .ok []

/-- The arm of `ChainSync`. -/
def chainSyncErrors (pos : String) (step : StepDef) : Pushed :=
  match step.get "intersection_points" with
  | some (.array pts) => pointsErrors pos "intersection_points" 0 pts
  | _ => .ok []

/-- The arm of `PeerExtendsChain`. -/
def peerExtendsChainErrors (pos : String) (step : StepDef) : List String :=
  ["peer_id", "slot", "block_number", "block_hash", "header_cbor"].flatMap (fun req =>
      requires step req s!"{pos}: peer_extends_chain requires {req}") ++
    match step.get "block_hash" with
    | some (.string h) =>
      let len := (strBytes h).length
      errorIf (!(Value.string h).isRef && len ≠ 64)
        (s!"{pos}: peer_extends_chain block_hash must be 64 hex characters (32 bytes), " ++
          s!"got {len}")
    | _ => []

/-- The arm of `TickSlots`. -/
def tickSlotsErrors (pos : String) (step : StepDef) : List String :=
  match step.get "count" with
  | none => [s!"{pos}: tick_slots requires count"]
  | some v =>
    errorIf (!v.isRef && (v.asU64.all fun n => n < 1))
      s!"{pos}: tick_slots: count must be at least 1"

/-- What `serve_chain_sync` and `serve_block_fetch` serve. -/
def contentErrors (pos : String) (step : StepDef) (fixture conflict missing : String) :
    List String :=
  let hasFixture := (step.get fixture).isSome
  let hasResponses := (step.get "responses").isSome
  let hasAsPeer := (step.get "as_peer").isSome
  errorIf (hasFixture && hasAsPeer) s!"{pos}: {conflict}" ++
    errorIf (!hasFixture && !hasResponses && !hasAsPeer) s!"{pos}: {missing}"

/-- The arm of `ServeBlockFetch`. -/
def serveBlockFetchErrors (pos : String) (step : StepDef) : List String :=
  contentErrors pos step "block_fetch_fixture_path"
    "block_fetch_fixture_path and as_peer are mutually exclusive"
    "serve_block_fetch requires block_fetch_fixture_path, as_peer, responses, or both"

/-- The arm of `ServeChainSync`. -/
def serveChainSyncErrors (pos : String) (step : StepDef) : List String :=
  contentErrors pos step "fixture_path" "fixture_path and as_peer are mutually exclusive"
      "serve_chain_sync requires fixture_path, as_peer, or responses" ++
    match (step.get "await_at_tip_secs").bind Value.asU64 with
    | none => []
    | some secs =>
      errorIf (secs > 300) s!"{pos}: await_at_tip_secs {secs} exceeds maximum of 300"

/-- The arm of a step without steps of its own. -/
def leafErrors (pos : String) (step : StepDef) (hasChainSync : Bool) : LeafKind → Pushed
  | .chainSync => chainSyncErrors pos step
  | .blockFetch => blockFetchErrors pos step hasChainSync
  | .leiosFetch => leiosFetchErrors pos step
  | .sleep => .ok (requires step "duration_secs" s!"{pos}: sleep step requires duration_secs")
  | .serveBlockFetch => .ok (serveBlockFetchErrors pos step)
  | .serveChainSync => .ok (serveChainSyncErrors pos step)
  | .emitPeerEvent => .ok (
      requires step "peer_id" s!"{pos}: emit_peer_event requires peer_id" ++
      requires step "event_kind" s!"{pos}: emit_peer_event requires event_kind")
  | .peerExtendsChain => .ok (peerExtendsChainErrors pos step)
  | .advanceToSlot => .ok (requires step "slot" s!"{pos}: advance_to_slot requires slot")
  | .tickSlots => .ok (tickSlotsErrors pos step)
  | .connect | .disconnect | .handshake | .queryTip | .leiosNotify => .ok []
  | .listen | .acceptHandshake | .closeListener | .serveLeiosNotify | .serveLeiosFetch => .ok []

section

variable (serdeError : Value → String)

theorem errorIf_eq_nil {found : Bool} {message : String} :
    errorIf found message = [] ↔ found = false := by
  cases found <;> simp [errorIf]

mutual

/-- `validate_steps`, from the step at `i` on. -/
def validateSteps : Nat → List StepDef → Bool → Checked
  | _, [], hasChainSync => .ok ([], hasChainSync)
  | i, step :: rest, hasChainSync =>
    (validateStep (stepPos i step) step hasChainSync).andThen (validateSteps (i + 1) rest)
termination_by _ steps => stepsWeight steps
decreasing_by all_goals simp only [stepsWeight_cons]; omega

/-- `validate_step`. The body of a `repeat` and the branches of a `parallel` share
`has_chain_sync` with the steps around them. -/
def validateStep (pos : String) (step : StepDef) (hasChainSync : Bool) : Checked :=
  Checked.andThen (.ok (fieldErrors pos step, hasChainSync)) fun hasChainSync =>
    match step.kind with
    | .leaf kind => do
      let errors ← leafErrors pos step hasChainSync kind
      return (errors, if kind = .chainSync then true else hasChainSync)
    | .repeat =>
      Checked.andThen (.ok (requires step "times" s!"{pos}: repeat step requires times",
        hasChainSync)) fun hasChainSync =>
          match _ : step.get "body" with
          | none => .ok ([s!"{pos}: repeat step requires body"], hasChainSync)
          | some v =>
            match _ : stepsOf v with
            | some body => validateSteps 0 body hasChainSync
            | none =>
              let e := serdeError v
              .ok ([s!"{pos}: invalid body: {e}"], hasChainSync)
    | .parallel =>
      match _ : step.get "branches" with
      | none => .ok ([s!"{pos}: parallel step requires branches"], hasChainSync)
      | some (.array []) =>
        .ok ([s!"{pos}: parallel step requires at least one branch"], hasChainSync)
      | some (.array items) => validateBranches pos 0 items hasChainSync
      | some _ => .ok ([s!"{pos}: parallel branches must be an array"], hasChainSync)
termination_by step.weight
decreasing_by
  · have hsmall := StepDef.get_lt ‹step.get "body" = some v›
    have hlt := stepsOf_lt ‹stepsOf v = some body›
    omega
  · have hsmall := StepDef.get_lt ‹step.get "branches" = some (.array items)›
    simp only [Value.array.sizeOf_spec] at hsmall
    omega

/-- The branches of a `parallel` step, from the one at `b` on. -/
def validateBranches (pos : String) : Nat → List Value → Bool → Checked
  | _, [], hasChainSync => .ok ([], hasChainSync)
  | b, v :: rest, hasChainSync =>
    Checked.andThen
      (match _ : stepsOf v with
        | some body => validateSteps 0 body hasChainSync
        | none =>
          let e := serdeError v
          .ok ([s!"{pos}: branches[{b}]: {e}"], hasChainSync))
      (validateBranches pos (b + 1) rest)
termination_by _ items => sizeOf items
decreasing_by
  · have hlt := stepsOf_lt ‹stepsOf v = some body›
    simp only [List.cons.sizeOf_spec]
    omega
  · simp only [List.cons.sizeOf_spec]
    omega

end

end

section

variable {serdeError : Value → String} {pos : String} {step : StepDef} {hasChainSync : Bool}

/-- A step that has no steps of its own. -/
theorem validateStep_leaf {kind : LeafKind} (hkind : step.kind = .leaf kind) :
    validateStep serdeError pos step hasChainSync =
      Checked.andThen (.ok (fieldErrors pos step, hasChainSync)) fun hasChainSync => do
        let errors ← leafErrors pos step hasChainSync kind
        return (errors, if kind = .chainSync then true else hasChainSync) := by
  rw [validateStep, hkind]

theorem fieldErrors_eq_misplacedFields (hkind : step.kind = .leaf .tickSlots ∨
    step.kind = .leaf .advanceToSlot) :
    fieldErrors pos step = misplacedFields pos step.rawParams := by
  rcases hkind with hkind | hkind <;>
    simp [fieldErrors, misplacedFields, errorIf, hkind, StepDef.get]

/-- The validation of a `tick_slots` step by itself. -/
theorem validateStep_tickSlots (hkind : step.kind = .leaf .tickSlots) :
    validateStep serdeError pos step hasChainSync =
      .ok (validateTickSlots pos step.rawParams, hasChainSync) := by
  have harm : misplacedFields pos step.rawParams ++ tickSlotsErrors pos step =
      validateTickSlots pos step.rawParams := by
    unfold tickSlotsErrors validateTickSlots StepDef.get
    cases step.rawParams.getField "count" with
    | none => rfl
    | some v => cases hv : v.asU64 <;> cases hr : v.isRef <;> simp [errorIf, hv, hr]
  rw [validateStep_leaf hkind, fieldErrors_eq_misplacedFields (Or.inl hkind), ← harm]
  rfl

/-- The validation of an `advance_to_slot` step by itself. -/
theorem validateStep_advanceToSlot (hkind : step.kind = .leaf .advanceToSlot) :
    validateStep serdeError pos step hasChainSync =
      .ok (validateAdvanceToSlot pos step.rawParams, hasChainSync) := by
  rw [validateStep_leaf hkind, fieldErrors_eq_misplacedFields (Or.inr hkind)]
  simp only [leafErrors, requires, errorIf]
  rfl

/-- A `repeat` step whose body parses. -/
theorem validateStep_repeat {v : Value} {body : List StepDef} (hkind : step.kind = .repeat)
    (hget : step.get "body" = some v) (hparse : stepsOf v = some body) :
    validateStep serdeError pos step hasChainSync =
      Checked.andThen (.ok (fieldErrors pos step, hasChainSync)) fun hasChainSync =>
        Checked.andThen (.ok (requires step "times" s!"{pos}: repeat step requires times",
          hasChainSync)) (validateSteps serdeError 0 body) := by
  rw [validateStep, hkind]
  dsimp only
  congr 1
  funext hasChainSync
  congr 1
  funext hasChainSync
  split
  · next hnone => simp [hget] at hnone
  · next w hsome =>
    cases hget.symm.trans hsome
    split
    · next body' hbody => cases hparse.symm.trans hbody; rfl
    · next hnone => simp [hparse] at hnone

/-- A `parallel` step with branches. -/
theorem validateStep_parallel {v : Value} {items : List Value} (hkind : step.kind = .parallel)
    (hget : step.get "branches" = some (.array (v :: items))) :
    validateStep serdeError pos step hasChainSync =
      Checked.andThen (.ok (fieldErrors pos step, hasChainSync))
        (validateBranches serdeError pos 0 (v :: items)) := by
  rw [validateStep, hkind]
  dsimp only
  congr 1
  funext hasChainSync
  split
  · next hnone => simp [hget] at hnone
  · next hempty => simp [hget] at hempty
  · next items' _ hsome => cases hget.symm.trans hsome; rfl
  · next w _ hnot hsome =>
    have heq := Option.some.inj (hsome.symm.trans hget)
    exact absurd heq (hnot (v :: items))

/-- A branch that parses. -/
theorem validateBranches_cons {b : Nat} {v : Value} {rest : List Value} {body : List StepDef}
    (hparse : stepsOf v = some body) :
    validateBranches serdeError pos b (v :: rest) hasChainSync =
      Checked.andThen (validateSteps serdeError 0 body hasChainSync)
        (validateBranches serdeError pos (b + 1) rest) := by
  rw [validateBranches]
  congr 1
  split
  · next body' hbody => cases hparse.symm.trans hbody; rfl
  · next hnone => simp [hparse] at hnone

end

/-! ## `validate_connection_names` -/

/-- The names that are open. -/
structure NameSets where
  openClients : Finset String
  openListeners : Finset String
  openServers : Finset String
deriving DecidableEq

/-- No name is open. -/
def NameSets.empty : NameSets := ⟨∅, ∅, ∅⟩

/-- One round of the loop. -/
def checkNames (i : Nat) (step : StepDef) (names : NameSets) : List String × NameSets :=
  let pos := stepPos i step
  let asName := step.asName.getD "default"
  let onName := step.onName.getD "default"
  match step.kind with
  | .leaf .connect =>
    (errorIf (asName ∈ names.openClients)
      (s!"{pos}: connection name \"{asName}\" is already open " ++
        s!"(use a different `as` name or disconnect first)"),
      { names with openClients := insert asName names.openClients })
  | .leaf .listen =>
    (errorIf (asName ∈ names.openListeners)
      s!"{pos}: listener name \"{asName}\" is already open",
      { names with openListeners := insert asName names.openListeners })
  | .leaf .acceptHandshake =>
    (errorIf (onName ∉ names.openListeners)
        (s!"{pos}: no listener named \"{onName}\" " ++
          s!"(create it with `listen as: \"{onName}\"`)") ++
      errorIf (asName ∈ names.openServers)
        s!"{pos}: server connection name \"{asName}\" is already open",
      { names with openServers := insert asName names.openServers })
  | .leaf .handshake | .leaf .chainSync | .leaf .blockFetch | .leaf .queryTip
  | .leaf .leiosNotify | .leaf .leiosFetch =>
    (errorIf (onName ∉ names.openClients)
      (s!"{pos}: no connection named \"{onName}\" " ++
        s!"(create it with `connect as: \"{onName}\"`)"), names)
  | .leaf .disconnect =>
    (errorIf (onName ∉ names.openClients)
      s!"{pos}: no connection named \"{onName}\" to disconnect",
      { names with openClients := names.openClients.erase onName })
  | .leaf .serveChainSync | .leaf .serveBlockFetch
  | .leaf .serveLeiosNotify | .leaf .serveLeiosFetch =>
    (errorIf (onName ∉ names.openServers)
      (s!"{pos}: no server connection named \"{onName}\" " ++
        s!"(create it with `accept_handshake as: \"{onName}\"`)"), names)
  | .leaf .closeListener =>
    (errorIf (onName ∉ names.openListeners)
      s!"{pos}: no listener named \"{onName}\" to close",
      { names with openListeners := names.openListeners.erase onName })
  -- the steps of a control step are not looked at
  | .repeat | .parallel => ([], names)
  | .leaf .sleep | .leaf .emitPeerEvent | .leaf .advanceToSlot | .leaf .tickSlots
  | .leaf .peerExtendsChain => ([], names)

/-- `validate_connection_names`, from the step at `i` on. -/
def validateConnectionNames : Nat → List StepDef → NameSets → List String
  | _, [], _ => []
  | i, step :: rest, names =>
    (checkNames i step names).1 ++ validateConnectionNames (i + 1) rest (checkNames i step names).2

/-! ## `validate_connect_addresses` -/

mutual

/-- `collect_connect_steps`: for each `connect` step its flat index, and whether it has an
address of its own. -/
def collectConnectSteps : List StepDef → Nat → List (Nat × Bool) × Nat
  | [], counter => ([], counter)
  | step :: rest, counter =>
    let own := if step.kind = .leaf .connect then
      [(counter, (step.get "target_address").isSome)] else []
    let (inBody, counter) := collectConnectSteps step.bodySteps (counter + 1)
    let (inBranches, counter) := collectInBranches step.branchSteps counter
    let (later, counter) := collectConnectSteps rest counter
    (own ++ inBody ++ inBranches ++ later, counter)
termination_by steps => stepsWeight steps
decreasing_by
  · have hbody := step.bodySteps_le
    simp only [stepsWeight_cons]
    omega
  · have hbranches := step.branchSteps_le
    simp only [stepsWeight_cons]
    omega
  · simp only [stepsWeight_cons]
    omega

/-- `collect_connect_steps`, on the branches of a step. -/
def collectInBranches : List (List StepDef) → Nat → List (Nat × Bool) × Nat
  | [], counter => ([], counter)
  | branch :: rest, counter =>
    let (inBranch, counter) := collectConnectSteps branch counter
    let (later, counter) := collectInBranches rest counter
    (inBranch ++ later, counter)
termination_by branches => branchesWeight branches
decreasing_by all_goals simp only [branchesWeight_cons]; omega

end

/-- `validate_connect_addresses`. -/
def validateConnectAddresses (scenario : Scenario) : List String :=
  let needsDefault := (collectConnectSteps scenario.steps 0).1.any fun found => !found.2
  errorIf (needsDefault && scenario.targetAddress.isNone)
    ("scenario-level target_address is required because at least one connect step " ++
      "does not specify its own target_address — either add target_address to the " ++
      "scenario or add target_address to every connect step")

/-! ## `validate_network_declaration` -/

/-- Whether a peer has a content source. -/
def hasContent (peer : Peer) : Bool :=
  peer.chainSyncFixture.isSome || peer.blockFetchFixture.isSome ||
    match peer.productionRule with
    | none => false
    | some .none => false
    | some _ => true

/-- The loop over the peers; `seen` are the ids of those before. -/
def validatePeers (startSlot : Option UInt64) : List String → List Peer → List String
  | _, [] => []
  | seen, peer :: rest =>
    let id := peer.id
    let pos := s!"network.peers[\"{id}\"]"
    errorIf (seen.contains id) s!"network: duplicate peer id \"{id}\"" ++
      errorIf (!hasContent peer) (s!"network: peer \"{id}\" has no content source — declare " ++
        s!"chain_sync_fixture, block_fetch_fixture, or production_rule") ++
      validateProductionRule pos startSlot peer.productionRule ++
      validatePeers startSlot (id :: seen) rest

/-- `validate_network_declaration`. -/
def validateNetworkDeclaration (scenario : Scenario) : List String :=
  match scenario.network with
  | none => []
  | some network => validatePeers network.startSlot [] network.peers

/-! ## `validate_as_peer_refs` -/

/-- The `as_peer` of one step. -/
def asPeerErrors (network : Option Network) (pos : String) (step : StepDef) : List String :=
  match step.get "as_peer" with
  | some (.string asPeerId) =>
    match network with
    | none => [s!"{pos}: as_peer requires a network declaration in the scenario"]
    | some net =>
      errorIf (!(net.peers.any fun p => p.id = asPeerId))
        s!"{pos}: as_peer \"{asPeerId}\" is not declared in the network block"
  | _ => []

mutual

/-- `walk_as_peer_refs`, from the step at `i` on. -/
def walkAsPeerRefs (network : Option Network) : Nat → List StepDef → List String
  | _, [] => []
  | i, step :: rest =>
    asPeerErrors network (stepPos i step) step ++ walkAsPeerRefs network 0 step.bodySteps ++
      walkAsPeerBranches network step.branchSteps ++ walkAsPeerRefs network (i + 1) rest
termination_by _ steps => stepsWeight steps
decreasing_by
  · have hbody := step.bodySteps_le
    simp only [stepsWeight_cons]
    omega
  · have hbranches := step.branchSteps_le
    simp only [stepsWeight_cons]
    omega
  · simp only [stepsWeight_cons]
    omega

/-- `walk_as_peer_refs`, on the branches of a step. -/
def walkAsPeerBranches (network : Option Network) : List (List StepDef) → List String
  | [] => []
  | branch :: rest => walkAsPeerRefs network 0 branch ++ walkAsPeerBranches network rest
termination_by branches => branchesWeight branches
decreasing_by all_goals simp only [branchesWeight_cons]; omega

end

/-! ## `validate` -/

/-- A scenario is either client-mode or server-mode: the check at the top of `validate`. -/
def modeErrors (steps : List StepDef) : List String :=
  let hasClient := steps.any fun s => s.kind.isClientSide
  let hasServer := steps.any fun s => s.kind.isServerSide
  errorIf (hasClient && hasServer)
    ("scenario mixes client-side steps (connect/handshake/…) and server-side " ++
      "steps (listen/accept_handshake/…) — these must not appear in the same scenario")

/-- `validate`. -/
def validate (serdeError : Value → String) (scenario : Scenario) : Except Fault Unit := do
  let (stepErrors, _) ← validateSteps serdeError 0 scenario.steps false
  let errors := modeErrors scenario.steps ++ stepErrors ++
    validateConnectionNames 0 scenario.steps .empty ++ validateConnectAddresses scenario ++
    validateNetworkDeclaration scenario ++ walkAsPeerRefs scenario.network 0 scenario.steps
  if errors.isEmpty then return ()
  else
    let name := scenario.name
    let text := String.intercalate "\n  - " errors
    bail s!"scenario \"{name}\" has validation errors:\n  - {text}"

/-- A scenario that `validate` accepts. -/
def Accepted (serdeError : Value → String) (scenario : Scenario) : Prop :=
  validate serdeError scenario = .ok ()

/-- A scenario is accepted if no part of its validation pushes an error. -/
theorem accepted_iff {serdeError : Value → String} {scenario : Scenario} :
    Accepted serdeError scenario ↔ modeErrors scenario.steps = [] ∧
      (∃ hasChainSync, validateSteps serdeError 0 scenario.steps false = .ok ([], hasChainSync)) ∧
      validateConnectionNames 0 scenario.steps .empty = [] ∧
      validateConnectAddresses scenario = [] ∧ validateNetworkDeclaration scenario = [] ∧
      walkAsPeerRefs scenario.network 0 scenario.steps = [] := by
  unfold Accepted validate
  constructor
  · intro h
    obtain ⟨⟨stepErrors, hasChainSync⟩, hsteps, h⟩ := bind_eq_ok.mp h
    dsimp only at h
    split at h
    · next hempty =>
      simp only [List.isEmpty_iff, List.append_eq_nil_iff] at hempty
      obtain ⟨⟨⟨⟨⟨hmode, rfl⟩, hnames⟩, haddresses⟩, hnetwork⟩, hpeers⟩ := hempty
      exact ⟨hmode, ⟨hasChainSync, hsteps⟩, hnames, haddresses, hnetwork, hpeers⟩
    · simp [bail] at h
  · intro h
    obtain ⟨hmode, ⟨hasChainSync, hsteps⟩, hnames, haddresses, hnetwork, hpeers⟩ := h
    refine bind_eq_ok.mpr ⟨([], hasChainSync), hsteps, ?_⟩
    simp only [hmode, hnames, haddresses, hnetwork, hpeers, List.append_nil, List.isEmpty_nil,
      if_true]
    rfl

end ConformanceHarness.Loader
