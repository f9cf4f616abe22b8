import ConformanceHarness.Proof.TemplateGrammar

/-!
# Substitution is a map over texts

Substitution walks a value and leaves its shape alone: each text is replaced by what it resolves
to, and what is put in is not looked at again. The texts of a value are listed here from left to
right, with a map over them that does not descend into what it puts in, and substitution is that
map.
-/

namespace ConformanceHarness

/-- A text that is no plain text: it contains `"${"`, or begins with `'$'`. -/
def Refers (s : String) : Prop := opening <:+: s.toList ∨ s.toList.head? = some '$'

/-- What a text is replaced by, and the references in it. A template is one wherever it begins. -/
inductive ResolvesTo (vars : VarStore) : String → Value → List (String × String) → Prop where
  | plain {s : String} : ¬ Refers s → ResolvesTo vars s (.string s) []
  | template {s : String} {pieces : List Piece} {text : List Char} :
      opening <:+: s.toList → Splits s.toList pieces → writtenPieces vars pieces = some text →
      ResolvesTo vars s (.string (String.ofList text))
        ((pieces.filterMap Piece.name?).map fun name => ("$\x7b" ++ name ++ "\x7d", "string"))
  | reference {s : String} {v : Value} :
      ¬ opening <:+: s.toList → s.toList.head? = some '$' → resolveRef s vars = .ok v →
      ResolvesTo vars s v [(s, v.typeName)]

namespace Value

mutual

/-- The texts of a value, from left to right. Keys are not among them. -/
def texts : Value → List String
  | .string s => [s]
  | .array items => itemTexts items
  | .object fields => fieldTexts fields
  | .null => []
  | .bool _ => []
  | .number _ => []

/-- The texts of the items of an array. -/
def itemTexts : List Value → List String
  | [] => []
  | v :: rest => v.texts ++ itemTexts rest

/-- The texts of the fields of an object. -/
def fieldTexts : List (String × Value) → List String
  | [] => []
  | (_, v) :: rest => v.texts ++ fieldTexts rest

end

mutual

/-- The value with `f s` for every text `s`, whatever `f s` contains. -/
def mapTexts (f : String → Value) : Value → Value
  | .string s => f s
  | .array items => .array (mapItems f items)
  | .object fields => .object (mapFields f fields)
  | .null => .null
  | .bool b => .bool b
  | .number n => .number n

/-- The items of an array. -/
def mapItems (f : String → Value) : List Value → List Value
  | [] => []
  | v :: rest => v.mapTexts f :: mapItems f rest

/-- The fields of an object, under their keys. -/
def mapFields (f : String → Value) : List (String × Value) → List (String × Value)
  | [] => []
  | (key, v) :: rest => (key, v.mapTexts f) :: mapFields f rest

end

end Value

namespace Proof

variable {vars : VarStore}

/-! ## One text -/

theorem isSome_splitTemplate {cs : List Char} :
    (splitTemplate cs).isSome = true ↔ opening <:+: cs := by
  rw [Option.isSome_iff_ne_none, Ne, splitTemplate_eq_none, not_not]

/-- **A text is replaced by what it resolves to.** -/
theorem substituteText_eq_ok {s : String} {v : Value} {refs : List (String × String)} :
    substituteText vars s = .ok (v, refs) ↔ ResolvesTo vars s v refs := by
  rw [substituteText]
  by_cases htemplate : opening <:+: s.toList
  · rw [if_pos (isSome_splitTemplate.mpr htemplate)]
    constructor
    · intro h
      rcases hexpand : expandTemplate s vars s.toList with e | ⟨text, names⟩
      · rw [hexpand] at h
        cases h
      · rw [hexpand] at h
        obtain ⟨rfl, rfl⟩ := Prod.mk.inj (Except.ok.inj h)
        obtain ⟨pieces, hsplits, htext, rfl⟩ := expandTemplate_eq_ok.mp hexpand
        exact .template htemplate hsplits htext
    · intro h
      cases h with
      | plain hplain => exact absurd (.inl htemplate) hplain
      | template _ hsplits htext =>
        have hexpand : expandTemplate s vars s.toList = .ok _ :=
          expandTemplate_eq_ok.mpr ⟨_, hsplits, htext, rfl⟩
        rw [hexpand]
      | reference hnone => exact absurd htemplate hnone
  · rw [if_neg (mt isSome_splitTemplate.mp htemplate)]
    by_cases hdollar : s.toList.head? = some '$'
    · rw [if_pos hdollar]
      constructor
      · intro h
        rcases hresolve : resolveRef s vars with e | w
        · rw [hresolve] at h
          cases e <;> cases h
        · rw [hresolve] at h
          obtain ⟨rfl, rfl⟩ := Prod.mk.inj (Except.ok.inj h)
          exact .reference htemplate hdollar hresolve
      · intro h
        cases h with
        | plain hplain => exact absurd (.inr hdollar) hplain
        | template hinfix => exact absurd hinfix htemplate
        | reference _ _ hresolve => rw [hresolve, withContext_ok]
    · rw [if_neg hdollar]
      constructor
      · intro h
        obtain ⟨rfl, rfl⟩ := Prod.mk.inj (Except.ok.inj h)
        exact .plain fun hrefers => hrefers.elim htemplate hdollar
      · intro h
        cases h with
        | plain _ => rfl
        | template hinfix => exact absurd hinfix htemplate
        | reference _ hhead => exact absurd hhead hdollar

/-! ## The walk -/

theorem substituteItems_cons_eq_ok {v : Value} {rest items' : List Value}
    {refs : List (String × String)} :
    substituteItems vars (v :: rest) = .ok (items', refs) ↔
      ∃ v' refs₁ rest' refs₂, substituteInner vars v = .ok (v', refs₁) ∧
        substituteItems vars rest = .ok (rest', refs₂) ∧ items' = v' :: rest' ∧
        refs = refs₁ ++ refs₂ := by
  rw [substituteItems]
  constructor
  · intro h
    rcases hv : substituteInner vars v with e | ⟨v', refs₁⟩ <;> rw [hv] at h
    · cases h
    · rcases hrest : substituteItems vars rest with e | ⟨rest', refs₂⟩ <;> rw [hrest] at h
      · cases h
      · obtain ⟨rfl, rfl⟩ := Prod.mk.inj (Except.ok.inj h)
        exact ⟨v', refs₁, rest', refs₂, rfl, rfl, rfl, rfl⟩
  · rintro ⟨v', refs₁, rest', refs₂, hv, hrest, rfl, rfl⟩
    rw [hv, hrest]

theorem substituteFields_cons_eq_ok {key : String} {v : Value}
    {rest fields' : List (String × Value)} {refs : List (String × String)} :
    substituteFields vars ((key, v) :: rest) = .ok (fields', refs) ↔
      ∃ v' refs₁ rest' refs₂, substituteInner vars v = .ok (v', refs₁) ∧
        substituteFields vars rest = .ok (rest', refs₂) ∧ fields' = (key, v') :: rest' ∧
        refs = refs₁ ++ refs₂ := by
  rw [substituteFields]
  constructor
  · intro h
    rcases hv : substituteInner vars v with e | ⟨v', refs₁⟩ <;> rw [hv] at h
    · cases h
    · rcases hrest : substituteFields vars rest with e | ⟨rest', refs₂⟩ <;> rw [hrest] at h
      · cases h
      · obtain ⟨rfl, rfl⟩ := Prod.mk.inj (Except.ok.inj h)
        exact ⟨v', refs₁, rest', refs₂, rfl, rfl, rfl, rfl⟩
  · rintro ⟨v', refs₁, rest', refs₂, hv, hrest, rfl, rfl⟩
    rw [hv, hrest]

section

variable {f : String → Value} {g : String → List (String × String)}

mutual

/-- A value whose texts resolve is mapped, and its references are those of its texts. -/
theorem substituteInner_of_texts : ∀ {v : Value},
    (∀ s ∈ v.texts, substituteText vars s = .ok (f s, g s)) →
    substituteInner vars v = .ok (v.mapTexts f, v.texts.flatMap g)
  | .string s, h => by
    have hs := h s (by rw [Value.texts]; exact List.mem_singleton_self s)
    rw [substituteInner, hs, Value.mapTexts, Value.texts, List.flatMap_singleton]
  | .array items, h => by
    rw [Value.texts] at h
    rw [substituteInner, substituteItems_of_texts h, Value.mapTexts, Value.texts]
  | .object fields, h => by
    rw [Value.texts] at h
    rw [substituteInner, substituteFields_of_texts h, Value.mapTexts, Value.texts]
  | .null, _ => rfl
  | .bool _, _ => rfl
  | .number _, _ => rfl

theorem substituteItems_of_texts : ∀ {items : List Value},
    (∀ s ∈ Value.itemTexts items, substituteText vars s = .ok (f s, g s)) →
    substituteItems vars items =
      .ok (Value.mapItems f items, (Value.itemTexts items).flatMap g)
  | [], _ => rfl
  | v :: rest, h => by
    rw [Value.itemTexts, List.forall_mem_append] at h
    rw [Value.itemTexts, List.flatMap_append]
    exact substituteItems_cons_eq_ok.mpr ⟨_, _, _, _, substituteInner_of_texts h.1,
      substituteItems_of_texts h.2, rfl, rfl⟩

theorem substituteFields_of_texts : ∀ {fields : List (String × Value)},
    (∀ s ∈ Value.fieldTexts fields, substituteText vars s = .ok (f s, g s)) →
    substituteFields vars fields =
      .ok (Value.mapFields f fields, (Value.fieldTexts fields).flatMap g)
  | [], _ => rfl
  | (_, v) :: rest, h => by
    rw [Value.fieldTexts, List.forall_mem_append] at h
    rw [Value.fieldTexts, List.flatMap_append]
    exact substituteFields_cons_eq_ok.mpr ⟨_, _, _, _, substituteInner_of_texts h.1,
      substituteFields_of_texts h.2, rfl, rfl⟩

end

end

/-- A text that substitution can replace. -/
def Replaces (vars : VarStore) (s : String) : Prop := ∃ r, substituteText vars s = .ok r

mutual

/-- A value that is substituted has only texts that resolve. -/
theorem texts_of_substituteInner : ∀ {v : Value} {r : Value × List (String × String)},
    substituteInner vars v = .ok r → ∀ s ∈ v.texts, Replaces vars s
  | .string s, r, h, t, ht => by
    rw [Value.texts] at ht
    obtain rfl := List.mem_singleton.mp ht
    exact ⟨r, h⟩
  | .array items, r, h, s, hs => by
    rw [Value.texts] at hs
    rw [substituteInner] at h
    rcases hitems : substituteItems vars items with e | r' <;> rw [hitems] at h
    · cases h
    · exact texts_of_substituteItems hitems s hs
  | .object fields, r, h, s, hs => by
    rw [Value.texts] at hs
    rw [substituteInner] at h
    rcases hfields : substituteFields vars fields with e | r' <;> rw [hfields] at h
    · cases h
    · exact texts_of_substituteFields hfields s hs
  | .null, _, _, _, hs => absurd hs List.not_mem_nil
  | .bool _, _, _, _, hs => absurd hs List.not_mem_nil
  | .number _, _, _, _, hs => absurd hs List.not_mem_nil

theorem texts_of_substituteItems : ∀ {items : List Value}
    {r : List Value × List (String × String)},
    substituteItems vars items = .ok r → ∀ s ∈ Value.itemTexts items, Replaces vars s
  | [], _, _, _, hs => absurd hs List.not_mem_nil
  | v :: rest, _, h, s, hs => by
    obtain ⟨v', refs₁, rest', refs₂, hv, hrest, -⟩ := substituteItems_cons_eq_ok.mp h
    rw [Value.itemTexts] at hs
    rcases List.mem_append.mp hs with hs | hs
    · exact texts_of_substituteInner hv s hs
    · exact texts_of_substituteItems hrest s hs

theorem texts_of_substituteFields : ∀ {fields : List (String × Value)}
    {r : List (String × Value) × List (String × String)},
    substituteFields vars fields = .ok r → ∀ s ∈ Value.fieldTexts fields, Replaces vars s
  | [], _, _, _, hs => absurd hs List.not_mem_nil
  | (_, v) :: rest, _, h, s, hs => by
    obtain ⟨v', refs₁, rest', refs₂, hv, hrest, -⟩ := substituteFields_cons_eq_ok.mp h
    rw [Value.fieldTexts] at hs
    rcases List.mem_append.mp hs with hs | hs
    · exact texts_of_substituteInner hv s hs
    · exact texts_of_substituteFields hrest s hs

end

/-- What texts resolve to, as functions. -/
theorem exists_resolution {texts : List String} (h : ∀ s ∈ texts, Replaces vars s) :
    ∃ (f : String → Value) (g : String → List (String × String)),
      ∀ s ∈ texts, substituteText vars s = .ok (f s, g s) := by
  have hchoice : ∀ s, ∃ r : Value × List (String × String),
      s ∈ texts → substituteText vars s = .ok r := by
    intro s
    by_cases hs : s ∈ texts
    · obtain ⟨r, hr⟩ := h s hs
      exact ⟨r, fun _ => hr⟩
    · exact ⟨(.null, []), fun hmem => absurd hmem hs⟩
  obtain ⟨r, hr⟩ := Classical.axiomOfChoice hchoice
  exact ⟨fun s => (r s).1, fun s => (r s).2, hr⟩

/-- **Substitution is one pass over the texts of a value.** It succeeds exactly when every text
that is no plain text resolves. Then what is left is the value with each text replaced by what it
resolves to, put in as it is, and the references are those of the texts from left to right. -/
theorem substituteInValue_single_pass (v : Value) (vars : VarStore) :
    ((∃ r, substituteInValue v vars = .ok r) ↔
        ∀ s ∈ v.texts, Refers s → ∃ w refs, ResolvesTo vars s w refs) ∧
      ∀ v' refs, substituteInValue v vars = .ok (v', refs) ↔
        ∃ (f : String → Value) (g : String → List (String × String)),
          (∀ s ∈ v.texts, ResolvesTo vars s (f s) (g s)) ∧ v' = v.mapTexts f ∧
            refs = v.texts.flatMap g := by
  have hresult : ∀ v' refs, substituteInValue v vars = .ok (v', refs) ↔
      ∃ (f : String → Value) (g : String → List (String × String)),
        (∀ s ∈ v.texts, ResolvesTo vars s (f s) (g s)) ∧ v' = v.mapTexts f ∧
          refs = v.texts.flatMap g := by
    intro v' refs
    constructor
    · intro h
      obtain ⟨f, g, hfg⟩ := exists_resolution (texts_of_substituteInner h)
      obtain ⟨rfl, rfl⟩ :=
        Prod.mk.inj (Except.ok.inj (h.symm.trans (substituteInner_of_texts hfg)))
      exact ⟨f, g, fun s hs => substituteText_eq_ok.mp (hfg s hs), rfl, rfl⟩
    · rintro ⟨f, g, hfg, rfl, rfl⟩
      exact substituteInner_of_texts fun s hs => substituteText_eq_ok.mpr (hfg s hs)
  refine ⟨?_, hresult⟩
  constructor
  · rintro ⟨⟨v', refs⟩, h⟩ s hs -
    obtain ⟨f, g, hfg, -⟩ := (hresult v' refs).mp h
    exact ⟨f s, g s, hfg s hs⟩
  · intro h
    have hall : ∀ s ∈ v.texts, Replaces vars s := by
      intro s hs
      by_cases hrefers : Refers s
      · obtain ⟨w, refs, hw⟩ := h s hs hrefers
        exact ⟨(w, refs), substituteText_eq_ok.mpr hw⟩
      · exact ⟨(.string s, []), substituteText_eq_ok.mpr (.plain hrefers)⟩
    obtain ⟨f, g, hfg⟩ := exists_resolution hall
    exact ⟨_, substituteInner_of_texts hfg⟩

end Proof

end ConformanceHarness
