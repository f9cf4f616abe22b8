import Mathlib.Algebra.GroupWithZero.Nat
import ConformanceHarness.Runner.RunStep

/-!
# Step definitions, as a scenario file has them

`StepDef` of `scenario/mod.rs`, with its `Deserialize`. The parameters stay JSON: the steps in
the body of a `repeat` and in the branches of a `parallel` are parsed out of them again, each
time they are needed.

What `serde` says of a value with the wrong shape is not modelled here either.
-/

namespace ConformanceHarness.Loader

open ConformanceHarness.Runner (LeafKind Assertions)

/-! ## Kinds -/

/-- `StepKind`. -/
inductive StepKind where
  | leaf (kind : LeafKind)
  | repeat
  | parallel
deriving Repr, DecidableEq

namespace StepKind

/-- `as_str`. -/
def asStr : StepKind → String
  | leaf kind => kind.asStr
  | .repeat => "repeat"
  | parallel => "parallel"

/-- `is_client_side`. -/
def isClientSide : StepKind → Bool
  | leaf .connect => true
  | leaf .handshake => true
  | leaf .chainSync => true
  | leaf .blockFetch => true
  | leaf .queryTip => true
  | leaf .disconnect => true
  | leaf .leiosNotify => true
  | leaf .leiosFetch => true
  | _ => false

/-- `is_server_side`. -/
def isServerSide : StepKind → Bool
  | leaf .listen => true
  | leaf .acceptHandshake => true
  | leaf .serveChainSync => true
  | leaf .serveBlockFetch => true
  | leaf .serveLeiosNotify => true
  | leaf .serveLeiosFetch => true
  | leaf .closeListener => true
  | _ => false

/-- Every kind. -/
def all : List StepKind :=
  [leaf .connect, leaf .handshake, leaf .chainSync, leaf .blockFetch, leaf .queryTip, .repeat,
    leaf .disconnect, leaf .sleep, leaf .listen, leaf .acceptHandshake, leaf .serveChainSync,
    leaf .serveBlockFetch, leaf .closeListener, parallel, leaf .emitPeerEvent,
    leaf .advanceToSlot, leaf .tickSlots, leaf .peerExtendsChain, leaf .leiosNotify,
    leaf .leiosFetch, leaf .serveLeiosNotify, leaf .serveLeiosFetch]

/-- The kind of a name. -/
def ofStr (s : String) : Option StepKind := all.find? fun kind => kind.asStr = s

/-- `StepKind::deserialize`: the name, or an object with the name as its only key, and no
content. -/
def fromValue : Value → Option StepKind
  | .string s => ofStr s
  | .object [(s, .null)] => ofStr s
  | _ => none

/-- Every kind is the kind of its name. -/
theorem ofStr_asStr (kind : StepKind) : ofStr kind.asStr = some kind := by
  cases kind with
  | leaf kind => cases kind <;> decide
  | «repeat» => decide
  | parallel => decide

end StepKind

/-! ## Steps -/

/-- `StepDef`. -/
structure StepDef where
  kind : StepKind
  rawParams : Value
  output : Option String
  asName : Option String
  onName : Option String
  expect : Option Assertions
deriving Repr

/-- `raw_params.get(..)`. -/
def StepDef.get (step : StepDef) (key : String) : Option Value := step.rawParams.getField key

/-- `map.remove(..).map(..).transpose()`: a field that may be absent, but not `null`. -/
def ifPresent {α : Type} (read : Value → Option α) : Option Value → Option (Option α)
  | none => some none
  | some v => (read v).map some

/-- `Assertions::deserialize`. -/
def assertionsFromValue (v : Value) : Option Assertions := do
  let field ← v.asStruct ["min_events", "must_contain_kind", "must_not_contain_kind"] 0
  return {
    minEvents := (← Value.optional Value.asU64 (field "min_events")).map UInt64.toNat
    mustContainKind := ← Value.optional (Value.asVec Value.asString) (field "must_contain_kind")
    mustNotContainKind :=
      ← Value.optional (Value.asVec Value.asString) (field "must_not_contain_kind") }

/-- A field `StepDef::deserialize` takes out of the map. -/
def isStripped (key : String) : Bool :=
  key = "kind" || key = "output" || key = "as" || key = "on" || key = "expect"

/-- `StepDef::deserialize`. -/
def StepDef.fromValue : Value → Option StepDef
  | .object fields => do
    return {
      kind := ← Value.required StepKind.fromValue (fields.lookup "kind")
      output := ← ifPresent Value.asString (fields.lookup "output")
      asName := ← ifPresent Value.asString (fields.lookup "as")
      onName := ← ifPresent Value.asString (fields.lookup "on")
      expect := ← ifPresent assertionsFromValue (fields.lookup "expect")
      rawParams := .object (fields.filter fun f => !isStripped f.1) }
  | _ => none

/-- `from_value::<Vec<StepDef>>`. -/
def stepsOf : Value → Option (List StepDef) := Value.asVec StepDef.fromValue

/-- `from_value::<Vec<Vec<StepDef>>>`. -/
def branchesOf : Value → Option (List (List StepDef)) := Value.asVec stepsOf

/-! ## Parsing makes smaller -/

/-- The size of a step's parameters. -/
noncomputable def StepDef.weight (step : StepDef) : Nat := sizeOf step.rawParams

/-- The size of the parameters of steps. -/
noncomputable def stepsWeight (steps : List StepDef) : Nat :=
  (steps.map fun step => step.weight + 1).sum

/-- The size of the parameters of the steps of branches. -/
noncomputable def branchesWeight (branches : List (List StepDef)) : Nat :=
  (branches.map fun steps => stepsWeight steps + 1).sum

@[simp] theorem stepsWeight_cons (step : StepDef) (rest : List StepDef) :
    stepsWeight (step :: rest) = step.weight + 1 + stepsWeight rest := by
  simp [stepsWeight]

@[simp] theorem branchesWeight_cons (steps : List StepDef) (rest : List (List StepDef)) :
    branchesWeight (steps :: rest) = stepsWeight steps + 1 + branchesWeight rest := by
  simp [branchesWeight]

theorem sizeOf_filter_le {α : Type} [SizeOf α] (p : α → Bool) (l : List α) :
    sizeOf (l.filter p) ≤ sizeOf l := by
  induction l with
  | nil => simp
  | cons x rest ih =>
    rw [List.filter_cons]
    split <;> simp only [List.cons.sizeOf_spec] <;> omega

theorem sizeOf_lookup_lt {fields : List (String × Value)} {key : String} {v : Value}
    (h : fields.lookup key = some v) : sizeOf v < sizeOf fields := by
  induction fields with
  | nil => simp at h
  | cons field rest ih =>
    obtain ⟨k, w⟩ := field
    simp only [List.cons.sizeOf_spec, Prod.mk.sizeOf_spec]
    rw [List.lookup_cons] at h
    split at h
    · cases h
      omega
    · have := ih h
      omega

/-- A parameter is smaller than the parameters. -/
theorem StepDef.get_lt {step : StepDef} {key : String} {v : Value} (h : step.get key = some v) :
    sizeOf v < step.weight := by
  unfold StepDef.get at h
  unfold StepDef.weight
  cases hparams : step.rawParams with
  | object fields =>
    rw [hparams] at h
    have := sizeOf_lookup_lt h
    simp only [Value.object.sizeOf_spec]
    omega
  | _ => simp [hparams, Value.getField] at h

/-- A step is no larger than what it is parsed from. -/
theorem StepDef.fromValue_le {v : Value} {step : StepDef} (h : StepDef.fromValue v = some step) :
    step.weight ≤ sizeOf v := by
  cases v with
  | object fields =>
    simp only [StepDef.fromValue, Option.bind_eq_bind, Option.bind_eq_some_iff,
      Option.pure_def, Option.some.injEq] at h
    obtain ⟨_, -, _, -, _, -, _, -, _, -, rfl⟩ := h
    have := sizeOf_filter_le (fun f : String × Value => !isStripped f.1) fields
    simp only [StepDef.weight, Value.object.sizeOf_spec]
    omega
  | _ => simp [StepDef.fromValue] at h

/-- What is read from the items of an array weighs less than the array. -/
theorem asVec_weight_lt {α : Type} {read : Value → Option α} (weight : α → Nat)
    (hread : ∀ v a, read v = some a → weight a ≤ sizeOf v) {v : Value} {as : List α}
    (h : Value.asVec read v = some as) : (as.map fun a => weight a + 1).sum < sizeOf v := by
  cases v with
  | array items =>
    simp only [Value.asVec] at h
    simp only [Value.array.sizeOf_spec]
    induction items generalizing as with
    | nil =>
      cases h
      simp
    | cons item rest ih =>
      rw [List.mapM_cons] at h
      simp only [Option.bind_eq_bind, Option.bind_eq_some_iff, Option.pure_def,
        Option.some.injEq] at h
      obtain ⟨a, ha, as', has', rfl⟩ := h
      have hfirst := hread item a ha
      have hrest := ih has'
      simp only [List.map_cons, List.sum_cons, List.cons.sizeOf_spec]
      omega
  | _ => simp [Value.asVec] at h

theorem stepsOf_lt {v : Value} {steps : List StepDef} (h : stepsOf v = some steps) :
    stepsWeight steps < sizeOf v :=
  asVec_weight_lt StepDef.weight (fun _ _ => StepDef.fromValue_le) h

theorem branchesOf_lt {v : Value} {branches : List (List StepDef)}
    (h : branchesOf v = some branches) : branchesWeight branches < sizeOf v :=
  asVec_weight_lt stepsWeight (fun _ _ h => Nat.le_of_lt (stepsOf_lt h)) h

/-! ## Nested steps -/

/-- The steps that `body` parses to, of whatever step. -/
def StepDef.bodySteps (step : StepDef) : List StepDef :=
  ((step.get "body").bind stepsOf).getD []

/-- The branches that `branches` parses to, of whatever step. -/
def StepDef.branchSteps (step : StepDef) : List (List StepDef) :=
  ((step.get "branches").bind branchesOf).getD []

theorem StepDef.bodySteps_le (step : StepDef) : stepsWeight step.bodySteps ≤ step.weight := by
  unfold bodySteps
  cases hparsed : (step.get "body").bind stepsOf with
  | none => simp [stepsWeight]
  | some body =>
    obtain ⟨v, hget, hbody⟩ := Option.bind_eq_some_iff.mp hparsed
    have hsmall := StepDef.get_lt hget
    have hparse := stepsOf_lt hbody
    rw [Option.getD_some]
    omega

theorem StepDef.branchSteps_le (step : StepDef) :
    branchesWeight step.branchSteps ≤ step.weight := by
  unfold branchSteps
  cases hparsed : (step.get "branches").bind branchesOf with
  | none => simp [branchesWeight]
  | some branches =>
    obtain ⟨v, hget, hbranches⟩ := Option.bind_eq_some_iff.mp hparsed
    have hsmall := StepDef.get_lt hget
    have hparse := branchesOf_lt hbranches
    rw [Option.getD_some]
    omega

/-- The steps a `repeat` or a `parallel` step runs, as they are parsed. -/
inductive StepDef.Runs (step : StepDef) : StepDef → Prop where
  | body {v : Value} {body : List StepDef} {inner : StepDef} :
      step.kind = .repeat → step.get "body" = some v → stepsOf v = some body → inner ∈ body →
      step.Runs inner
  | branch {v : Value} {branches : List (List StepDef)} {branch : List StepDef}
      {inner : StepDef} :
      step.kind = .parallel → step.get "branches" = some v → branchesOf v = some branches →
      branch ∈ branches → inner ∈ branch → step.Runs inner

end ConformanceHarness.Loader
