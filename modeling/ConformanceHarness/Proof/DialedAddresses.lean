import ConformanceHarness.Proof.ConnectionNames
import ConformanceHarness.Proof.PeerReferences

/-!
# Addresses that are dialed

`connect` dials its own address, or the scenario's; `query_tip` dials the scenario's. `validate`
asks for the scenario's address if a `connect` step lacks the field. It does not ask for it because
of a `query_tip` step or of a field that is `null`, and it does not look at what an address is.
-/

namespace ConformanceHarness.Concurrent

open ConformanceHarness.Lib
open ConformanceHarness.Lib.Scope (live seq)
open ConformanceHarness.Proof
open ConformanceHarness.Runner (LeafKind)

variable {S : Setting} {frame : Bool} {steps : List Loader.StepDef}

/-- What is dialed is not empty, and is the address of the step or of the scenario. -/
structure GoodAddress (S : Setting) (d : Dial) : Prop where
  nonempty : d.addr ≠ ""
  source : d.params.targetAddress = some d.addr ∨ S.scenario.targetAddress = some d.addr

/-- The scenario has an address. -/
def ScenarioAddress (S : Setting) : Prop := ∃ addr, S.scenario.targetAddress = some addr ∧ addr ≠ ""

/-- What a step needs to dial a good address. -/
def HasAddress (S : Setting) (d : Dial) : Prop :=
  if d.step.kind = .leaf .connect then
    match d.params.targetAddress with
    -- its own, after substitution
    | some addr => addr ≠ ""
    | none =>
      -- the field is `null`
      if (d.step.get "target_address").isSome = true then ScenarioAddress S
      -- the field is not there, so that the scenario has an address
      else S.scenario.targetAddress ≠ some ""
  else ScenarioAddress S

/-- A dial of a step under way. -/
def IsDial (S : Setting) (steps : List Loader.StepDef) (d : Dial) : Prop :=
  ∃ l : Leaf, (IsStep steps .connect l ∨ IsStep steps .queryTip l) ∧
    d = ⟨l.step, l.params, address S l⟩

theorem isDial_preserves :
    Preserves (machine S) (Genuine S frame steps) fun s => ∀ d ∈ s.dialed, IsDial S steps d := by
  refine preserves_of ?_ ?_ ?_
  · intro held a s s' rest h ha hall d hd
    have hsame : s'.dialed = s.dialed → IsDial S steps d := fun heq => hall d (heq ▸ hd)
    cases exec_net h with
    | vars _ _ h => exact hsame h.dialed
    | begins _ _ _ h => exact hsame h.dialed
    | inits _ _ _ _ _ h => exact hsame h.dialed
    | appends _ _ _ h => exact hsame h.dialed
    | advances _ _ _ _ _ h => exact hsame h.dialed
    | ticks _ _ _ _ _ h => exact hsame h.dialed
    | dials l hact _ hdialed _ =>
      rw [hdialed] at hd
      rcases List.mem_append.mp hd with hd | hd
      · exact hall d hd
      · subst hact
        exact ⟨l, ha, List.mem_singleton.mp hd⟩
    | fetches _ _ _ _ _ _ _ hdialed _ => exact hsame hdialed
  · intro a s hall
    rwa [(drop_unrecorded a s).dialed]
  · intro s s' h hall
    rwa [(ambient_unrecorded h).dialed]

/-- A step that dials the scenario's address. -/
theorem scenarioAddress_iff {d : Dial} (haddr : d.addr = S.targetAddress) :
    GoodAddress S d ↔ ScenarioAddress S := by
  unfold Setting.targetAddress at haddr
  constructor
  · intro h
    have hnonempty := h.nonempty
    cases hscenario : S.scenario.targetAddress with
    | none =>
      rw [haddr, hscenario] at hnonempty
      exact absurd rfl hnonempty
    | some addr =>
      rw [haddr, hscenario] at hnonempty
      exact ⟨addr, hscenario, hnonempty⟩
  · intro h
    obtain ⟨addr, hscenario, hnonempty⟩ := h
    rw [hscenario, Option.getD_some] at haddr
    exact ⟨haddr ▸ hnonempty, Or.inr (haddr ▸ hscenario)⟩

/-- **Accepted scenarios dial a good address exactly if the step has one.** -/
theorem dialed_address_iff {serdeError : Value → String}
    (haccepted : Loader.Accepted serdeError S.scenario) {c : Prog} {s : State}
    (h : Scope.Reaches (machine S) (run S, .initial) (c, s)) {d : Dial} (hd : d ∈ s.dialed) :
    GoodAddress S d ↔ HasAddress S d := by
  have hdials := (isDial_preserves.reachesIn h (Code.genuine run_code) fun d hd =>
    (List.not_mem_nil hd).elim).2
  obtain ⟨l, hl, rfl⟩ := hdials d hd
  unfold HasAddress
  rcases hl with hl | hl
  · rw [if_pos hl.kind]
    cases hparam : l.params.targetAddress with
    | some addr =>
      have haddr : address S l = addr := by simp only [address, hl.kind, hparam, Option.getD_some]
      rw [haddr]
      exact ⟨fun h => h.nonempty, fun h => ⟨h, Or.inl hparam⟩⟩
    | none =>
      have haddr : address S l = S.targetAddress := by
        simp only [address, hl.kind, hparam, Option.getD_none]
      rw [scenarioAddress_iff haddr]
      by_cases hfield : (l.step.get "target_address").isSome = true
      · exact (if_pos hfield).symm ▸ Iff.rfl
      · -- `validate` has asked for the scenario's address
        have hneeds := (reachable_connect (Loader.accepted_iff.mp haccepted).2.2.2.1 hl.reachable
          hl.kind).resolve_left hfield
        obtain ⟨addr, hscenario⟩ := Option.isSome_iff_exists.mp hneeds
        simp only [hfield, if_false, ScenarioAddress, hscenario, Option.some.injEq, ne_eq,
          exists_eq_left', Bool.false_eq_true]
  · have hkind : ¬ l.step.kind = .leaf .connect := by
      rw [hl.kind]
      decide
    rw [if_neg hkind]
    refine scenarioAddress_iff ?_
    simp only [address, hl.kind]

/-! ## A tip is queried -/

/-- `connect`, to an address of its own, and `query_tip`, with no address in the scenario. -/
def tipScenario : Loader.Scenario where
  name := "t"
  targetAddress := none
  network := none
  steps := [plainStep (.leaf .connect) [("target_address", .string "localhost:3001")],
    plainStep (.leaf .queryTip) []]

theorem tipScenario_accepted : Loader.Accepted (fun _ => "") tipScenario := by
  have hsteps : Loader.validateSteps (fun _ => "") 0 tipScenario.steps false = .ok ([], false) := by
    refine validateSteps_leaf rfl (by decide) rfl rfl
      (validateSteps_leaf rfl (by decide) rfl rfl ?_)
    rw [Loader.validateSteps]
  have haddresses : Loader.validateConnectAddresses tipScenario = [] := by
    refine Loader.errorIf_eq_nil.mpr ?_
    rw [tipScenario, collectConnectSteps_leaf rfl rfl, collectConnectSteps_leaf rfl rfl,
      Loader.collectConnectSteps]
    rfl
  have hpeers : Loader.walkAsPeerRefs none 0 tipScenario.steps = [] := by
    rw [tipScenario, walkAsPeerRefs_leaf rfl rfl rfl, walkAsPeerRefs_leaf rfl rfl rfl,
      Loader.walkAsPeerRefs]
  exact Loader.accepted_iff.mpr ⟨rfl, ⟨false, hsteps⟩, by decide, haddresses, rfl, hpeers⟩

/-- **`validate` accepts a scenario that dials an empty address.** -/
theorem empty_address_dialed : Loader.Accepted (fun _ => "") tipScenario ∧
    ∃ c s, Scope.Reaches (machine (bareSetting tipScenario))
      (run (bareSetting tipScenario), .initial) (c, s) ∧
        ∃ d ∈ s.dialed, ¬ GoodAddress (bareSetting tipScenario) d := by
  have hconnect : Literal (plainStep (.leaf .connect) [("target_address", .string "localhost:3001")])
      .connect { (default : StepParams) with targetAddress := some "localhost:3001" } :=
    ⟨rfl, rfl, rfl, fun _ => rfl⟩
  have hquery : Literal (plainStep (.leaf .queryTip) []) .queryTip default :=
    ⟨rfl, rfl, rfl, fun _ => rfl⟩
  obtain ⟨c, s, hsteps, d, hd, haddr⟩ : ∃ c s, ComesTo (bareSetting tipScenario) []
      (run (bareSetting tipScenario)) .initial c s ∧ ∃ d ∈ s.dialed, d.addr = "" := by
    refine ⟨_, _, .bind (prelude_comesTo rfl rfl) (runSteps_comesTo (hconnect.comesTo connect_comesTo)
      (runSteps_inside (hquery.inside (.bind emit_comesTo (.inBind dial_comesTo))))), ?_⟩
    exact ⟨_, List.mem_append_right _ List.mem_cons_self, rfl⟩
  obtain ⟨t, -, hreach⟩ := hsteps.reaches
  exact ⟨tipScenario_accepted, c, _, hreach, d, hd, fun hgood => hgood.nonempty haddr⟩

theorem dialed_address_iff_connect : ∃ d : Dial, d.addr = "localhost:3001" ∧
    (GoodAddress (bareSetting minimalScenario) d ↔ HasAddress (bareSetting minimalScenario) d) := by
  have hconnect : Literal connectStep .connect default := ⟨rfl, rfl, rfl, fun _ => rfl⟩
  obtain ⟨c, s, hsteps, d, hd, haddr⟩ : ∃ c s, ComesTo (bareSetting minimalScenario) []
      (run (bareSetting minimalScenario)) .initial c s ∧
        ∃ d ∈ s.dialed, d.addr = "localhost:3001" := by
    refine ⟨_, _, .bind (prelude_comesTo rfl rfl)
      (runSteps_inside (hconnect.inside (.inBind dial_comesTo))), ?_⟩
    exact ⟨_, List.mem_append_right _ List.mem_cons_self, rfl⟩
  obtain ⟨t, -, hreach⟩ := hsteps.reaches
  exact ⟨d, haddr, dialed_address_iff (S := bareSetting minimalScenario) minimalScenario_accepted
    hreach hd⟩

end ConformanceHarness.Concurrent
