import ConformanceHarness.Loader.Validation

/-!
# What counts as a reference

`validate` takes a text for a reference if it starts with `$`. Substitution also replaces what
stands in `${..}` anywhere in a text. A point that starts with its slot and has a template for its
hash is thus read as a literal point by the one, and replaced by the other.
-/

namespace ConformanceHarness

open ConformanceHarness.Loader
open ConformanceHarness.Runner (LeafKind)

/-- `s.contains("${")`. -/
def isTemplate (s : String) : Bool := (splitTemplate s.toList).isSome

/-- Wherever it stands in a list of points, `validate` checks the text as a point. -/
def LiterallyChecked (s : String) : Prop :=
  ∀ pos label j rest, pointsErrors pos label j (.string s :: rest) =
    (pointErrors pos label j s).append (pointsErrors pos label (j + 1) rest)

/-- Substitution leaves the text as it is, whatever the variables are. -/
def Unchanged (s : String) : Prop :=
  ∀ vars, ∃ refs, substituteInValue (.string s) vars = .ok (.string s, refs)

/-- With these variables, it is a point after substitution. -/
def PointAfter (vars : VarStore) (v : Value) : Prop :=
  ∃ s refs point, substituteInValue v vars = .ok (.string s, refs) ∧ parsePoint s = .ok point

/-- The step has a list of points. -/
inductive HasPoints (step : Loader.StepDef) : LeafKind → List Value → Prop where
  | chainSync {points : List Value} : step.kind = .leaf .chainSync →
      step.get "intersection_points" = some (.array points) → HasPoints step .chainSync points
  | blockFetch {points : List Value} : step.kind = .leaf .blockFetch →
      step.get "points" = some (.array points) → HasPoints step .blockFetch points
  | leiosFetch {points : List Value} : step.kind = .leaf .leiosFetch →
      step.get "points" = some (.array points) → HasPoints step .leiosFetch points

/-- The validator and the substitution agree on which of the step's points are references. -/
structure AgreeOnReferences (step : Loader.StepDef) (kind : LeafKind) (points : List Value) : Prop where
  /-- Each text is checked exactly if substitution leaves it alone. -/
  sameTest : ∀ s, .string s ∈ points → (LiterallyChecked s ↔ Unchanged s)
  /-- Points that are well formed after substitution are not rejected before. -/
  notRejected : ∀ vars, (∀ v ∈ points, PointAfter vars v) → ∀ pos hasChainSync,
    leafErrors pos step hasChainSync kind = .ok []

namespace Proof

variable {s : String}

/-! ## The validator's test -/

/-- No point starts with `$`. -/
theorem parsePoint_ref (h : (Value.string s).isRef = true) :
    ∃ chain, parsePoint s = .error (.err chain) := by
  have hhead : s.toList.head? = some '$' := of_decide_eq_true h
  obtain ⟨rest, hs⟩ := List.head?_eq_some_iff.mp hhead
  have horigin : s ≠ "origin" := by
    rintro rfl
    exact absurd hhead (by decide)
  have hcolon : ¬ '$' = ':' := by decide
  rw [parsePoint, if_neg horigin, hs, splitOnce, if_neg hcolon]
  cases splitOnce ':' rest with
  | none => exact ⟨_, rfl⟩
  | some parts =>
    have hslot : parseUnsigned ('$' :: parts.1) = .error "invalid digit found in string" := rfl
    exact ⟨[s!"invalid slot in \"{s}\"", "invalid digit found in string"],
      by simp only [Option.map_some, hslot]⟩

theorem append_nil (pushed : Pushed) : pushed.append (.ok []) = pushed := by
  cases pushed with
  | error f => rfl
  | ok errors =>
    show Except.ok (errors ++ []) = _
    rw [List.append_nil]

theorem nil_append (pushed : Pushed) : Pushed.append (.ok []) pushed = pushed := by
  cases pushed with
  | error f => rfl
  | ok errors => rfl

/-- **The validator's test**: a text that does not start with `$` is checked. -/
theorem literallyChecked_iff : LiterallyChecked s ↔ (Value.string s).isRef = false := by
  constructor
  · intro h
    rw [Bool.eq_false_iff]
    intro href
    -- a reference is no point, so the check would push an error, and the validator does not
    obtain ⟨chain, hparse⟩ := parsePoint_ref href
    have hsame := h "" "" 0 []
    rw [pointsErrors] at hsame
    simp only [href, if_true, pointsErrors, append_nil, pointErrors, hparse] at hsame
    exact nomatch hsame
  · intro h pos label j rest
    rw [pointsErrors]
    simp only [h, Bool.false_eq_true, if_false]

/-! ## The substitution's test -/

/-- A store without variables. -/
def noVars : VarStore := fun _ => none

theorem resolveRef_noVars : ∃ f, resolveRef s noVars = .error f := by
  unfold resolveRef
  split
  · split
    · exact ⟨_, rfl⟩
    · split
      · split
        · exact ⟨_, rfl⟩
        · exact ⟨_, rfl⟩
      · exact ⟨_, rfl⟩
  · exact ⟨_, rfl⟩

theorem expandTemplate_noVars {cs : List Char} (h : (splitTemplate cs).isSome = true) :
    ∃ f, expandTemplate s noVars cs = .error f := by
  unfold expandTemplate
  split
  · next hnone =>
    rw [hnone] at h
    cases h
  · split
    · exact ⟨_, rfl⟩
    · exact ⟨_, rfl⟩

/-- **The substitution's test**: a text with `${` in it or `$` before it is replaced. -/
theorem unchanged_iff : Unchanged s ↔
    isTemplate s = false ∧ (Value.string s).isRef = false := by
  constructor
  · intro h
    obtain ⟨refs, hsame⟩ := h noVars
    rw [substituteInValue, substituteInner, substituteText] at hsame
    by_cases htemplate : isTemplate s = true
    · -- there is no variable to put in
      have hsplit : (splitTemplate s.toList).isSome = true := htemplate
      obtain ⟨f, hf⟩ := expandTemplate_noVars (s := s) hsplit
      rw [if_pos hsplit, hf] at hsame
      cases hsame
    · have hsplit : ¬ (splitTemplate s.toList).isSome = true := htemplate
      rw [if_neg hsplit] at hsame
      refine ⟨Bool.eq_false_iff.mpr htemplate, Bool.eq_false_iff.mpr fun href => ?_⟩
      obtain ⟨f, hf⟩ := resolveRef_noVars (s := s)
      rw [if_pos (of_decide_eq_true href), hf] at hsame
      cases f with
      | err chain => cases hsame
      | panic reason => cases hsame
  · intro h vars
    obtain ⟨htemplate, href⟩ := h
    have hsplit : ¬ (splitTemplate s.toList).isSome = true := Bool.eq_false_iff.mp htemplate
    have hhead : ¬ s.toList.head? = some '$' := of_decide_eq_false href
    refine ⟨[], ?_⟩
    rw [substituteInValue, substituteInner, substituteText, if_neg hsplit, if_neg hhead]

/-- The two tests say the same of a text unless it has a template after other text. -/
theorem sameTest_iff : (LiterallyChecked s ↔ Unchanged s) ↔
    (isTemplate s = true → (Value.string s).isRef = true) := by
  rw [literallyChecked_iff, unchanged_iff]
  cases isTemplate s <;> cases (Value.string s).isRef <;> simp

/-! ## Steps with points -/

variable {step : Loader.StepDef} {kind : LeafKind} {points : List Value}

/-- Of a list of points, the validator says nothing else. -/
theorem leafErrors_of_hasPoints (h : HasPoints step kind points) :
    ∃ label, ∀ pos hasChainSync,
      leafErrors pos step hasChainSync kind = pointsErrors pos label 0 points := by
  cases h with
  | chainSync hkind hget =>
    refine ⟨"intersection_points", fun pos hasChainSync => ?_⟩
    rw [leafErrors, chainSyncErrors, hget]
  | blockFetch hkind hget =>
    refine ⟨"points", fun pos hasChainSync => ?_⟩
    rw [leafErrors, blockFetchErrors, hget]
    exact nil_append _
  | leiosFetch hkind hget =>
    refine ⟨"points", fun pos hasChainSync => ?_⟩
    rw [leafErrors, leiosFetchErrors, hget]

/-- A point that is well formed after substitution, and whose text is no template after other
text, is not rejected. -/
theorem pointErrors_of_after {vars : VarStore} (hafter : PointAfter vars (.string s))
    (hliteral : (Value.string s).isRef = false)
    (htemplate : isTemplate s = true → (Value.string s).isRef = true) (pos label : String)
    (j : Nat) : pointErrors pos label j s = .ok [] := by
  have hplain : isTemplate s = false := by
    rw [Bool.eq_false_iff]
    intro h
    rw [htemplate h] at hliteral
    exact nomatch hliteral
  obtain ⟨refs, hsame⟩ := unchanged_iff.mpr ⟨hplain, hliteral⟩ vars
  obtain ⟨s', refs', point, hsub, hparse⟩ := hafter
  rw [hsame] at hsub
  obtain ⟨hs, -⟩ := Prod.mk.inj (Except.ok.inj hsub)
  obtain rfl := Value.string.inj hs
  rw [pointErrors, hparse]

theorem pointsErrors_of_after {vars : VarStore} (hafter : ∀ v ∈ points, PointAfter vars v)
    (htemplate : ∀ s, .string s ∈ points → isTemplate s = true → (Value.string s).isRef = true)
    (pos label : String) (j : Nat) : pointsErrors pos label j points = .ok [] := by
  induction points generalizing j with
  | nil => rfl
  | cons v rest ih =>
    have hrest := ih (fun v hv => hafter v (List.mem_cons_of_mem _ hv))
      (fun s hs => htemplate s (List.mem_cons_of_mem _ hs)) (j + 1)
    cases v with
    | string s =>
      rw [pointsErrors, hrest, append_nil]
      by_cases href : (Value.string s).isRef = true
      · exact if_pos href
      · have hpoint := pointErrors_of_after (hafter _ List.mem_cons_self)
          (Bool.eq_false_iff.mpr href) (htemplate s List.mem_cons_self) pos label j
        exact (if_neg href).trans hpoint
    | _ => exact (nil_append _).trans hrest

/-- **The validator and the substitution agree on the references of a step** exactly if every
template among its points starts with `$`. -/
theorem agreeOnReferences_iff (h : HasPoints step kind points) :
    AgreeOnReferences step kind points ↔
      ∀ s, .string s ∈ points → isTemplate s = true → (Value.string s).isRef = true := by
  constructor
  · intro hagree s hs
    exact sameTest_iff.mp (hagree.sameTest s hs)
  · intro htemplate
    refine ⟨fun s hs => sameTest_iff.mpr (htemplate s hs), fun vars hafter pos hasChainSync => ?_⟩
    obtain ⟨label, hlabel⟩ := leafErrors_of_hasPoints h
    rw [hlabel]
    exact pointsErrors_of_after hafter htemplate pos label 0

/-- A `block_fetch` step with these points. -/
def fetchPoints (points : List Value) : Loader.StepDef where
  kind := .leaf .blockFetch
  rawParams := .object [("points", .array points)]
  output := none
  asName := none
  onName := none
  expect := none

theorem agreeOnReferences_iff_slotVariable :
    AgreeOnReferences (fetchPoints [.string "$\x7bcurrent_slot\x7d:5a3d"]) .blockFetch
        [.string "$\x7bcurrent_slot\x7d:5a3d"] ↔
      ∀ s, .string s ∈ [Value.string "$\x7bcurrent_slot\x7d:5a3d"] → isTemplate s = true →
        (Value.string s).isRef = true :=
  agreeOnReferences_iff (.blockFetch rfl rfl)

/-- A slot with a variable for its hash is checked as it is, and rejected. -/
theorem hashVariable_rejected : ¬ AgreeOnReferences
    (fetchPoints [.string "62:$\x7bhash\x7d"]) .blockFetch [.string "62:$\x7bhash\x7d"] := by
  intro h
  have hsame := sameTest_iff.mp (h.sameTest "62:$\x7bhash\x7d" List.mem_cons_self)
  exact absurd (hsame (by decide)) (by decide)

end Proof

end ConformanceHarness
