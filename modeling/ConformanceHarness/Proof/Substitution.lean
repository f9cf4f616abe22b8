import Mathlib.Data.List.Forall2
import ConformanceHarness.Proof.TextSplits
import ConformanceHarness.Scenario.ResponseRules

/-!
# Reading a list of responses, before and after substitution

Substitution replaces texts and nothing else. So a list that can be read as it is
written can also be read after substitution, if the texts its rules consist of are still
texts then, and the rules are the same but for these. The names of a rule and of its
kind are the same: a name with a reference in it is no name.

The rules of a list are given twice here: as read from the substituted list, and as the
rules read from the list as written with their own texts substituted.
-/

namespace ConformanceHarness

/-- `v'` is what substitution leaves of `v`. -/
def Substituted (vars : VarStore) (v v' : Value) : Prop :=
  ∃ refs, substituteInner vars v = .ok (v', refs)

/-- Two fields with one key. -/
def FieldSubstituted (vars : VarStore) (f f' : String × Value) : Prop :=
  f.1 = f'.1 ∧ Substituted vars f.2 f'.2

/-! ## Substituting in rules -/

/-- A text that is a text after substitution. -/
def substituteString (vars : VarStore) (s : String) : Option String :=
  match substituteText vars s with
  | .ok (.string t, _) => some t
  | _ => none

/-- An optional text: a variable that is `null` makes it absent. -/
def substituteOptString (vars : VarStore) : Option String → Option (Option String)
  | none => some none
  | some s =>
    match substituteText vars s with
    | .ok (.string t, _) => some (some t)
    | .ok (.null, _) => some none
    | _ => none

/-- The point of a tip. -/
def TipSpec.substitute (vars : VarStore) (tip : TipSpec) : Option TipSpec :=
  (substituteString vars tip.point).map fun point => { tip with point }

/-- An optional tip. -/
def substituteOptTip (vars : VarStore) : Option TipSpec → Option (Option TipSpec)
  | none => some none
  | some tip => (tip.substitute vars).map some

mutual

/-- The texts of a send. -/
def SendDef.substitute (vars : VarStore) : SendDef → Option SendDef
  | .rollForward headerFromFixture headerCbor variant tip =>
    (substituteOptString vars headerCbor).bind fun headerCbor =>
      (substituteOptTip vars tip).map fun tip =>
        .rollForward headerFromFixture headerCbor variant tip
  | .rollBackward point tip =>
    (substituteString vars point).bind fun point =>
      (substituteOptTip vars tip).map fun tip => .rollBackward point tip
  | .intersectFound point tip =>
    (substituteString vars point).bind fun point =>
      (substituteOptTip vars tip).map fun tip => .intersectFound point tip
  | .intersectNotFound tip => (substituteOptTip vars tip).map .intersectNotFound
  | .block blockFromFixture blockCbor =>
    (substituteOptString vars blockCbor).map fun blockCbor => .block blockFromFixture blockCbor
  | .rawBytes hex => (substituteString vars hex).map .rawBytes
  | .sendSequence sends => (SendDef.substituteList vars sends).map .sendSequence
  | .awaitReply holdSecs => some (.awaitReply holdSecs)
  | .startBatch => some .startBatch
  | .batchDone => some .batchDone
  | .noBlocks => some .noBlocks
  | .streamBatch blockIndices blockCountFromRequest =>
    some (.streamBatch blockIndices blockCountFromRequest)
  | .wait durationSecs => some (.wait durationSecs)
  | .disconnect => some .disconnect

/-- The texts of the sends of a sequence. -/
def SendDef.substituteList (vars : VarStore) : List SendDef → Option (List SendDef)
  | [] => some []
  | d :: rest =>
    match SendDef.substitute vars d, SendDef.substituteList vars rest with
    | some d, some ds => some (d :: ds)
    | _, _ => none

end

/-- The texts of a rule. -/
def ResponseRuleDef.substitute (vars : VarStore) (rule : ResponseRuleDef) :
    Option ResponseRuleDef :=
  (rule.send.substitute vars).map fun send => { rule with send }

namespace Proof

variable {vars : VarStore}

/-! ## What substitution leaves -/

theorem substituted_items {items items' : List Value} {refs : List (String × String)}
    (h : substituteItems vars items = .ok (items', refs)) :
    List.Forall₂ (Substituted vars) items items' := by
  induction items generalizing items' refs with
  | nil =>
    obtain ⟨rfl, -⟩ := Prod.mk.inj (Except.ok.inj h)
    exact .nil
  | cons v rest ih =>
    rw [substituteItems] at h
    rcases hv : substituteInner vars v with f | ⟨v', refs'⟩ <;> rw [hv] at h
    · exact nomatch h
    · rcases hrest : substituteItems vars rest with f | ⟨rest', refs''⟩ <;> rw [hrest] at h
      · exact nomatch h
      · obtain ⟨rfl, -⟩ := Prod.mk.inj (Except.ok.inj h)
        exact .cons ⟨refs', hv⟩ (ih hrest)

theorem substituted_fields {fields fields' : List (String × Value)}
    {refs : List (String × String)} (h : substituteFields vars fields = .ok (fields', refs)) :
    List.Forall₂ (FieldSubstituted vars) fields fields' := by
  induction fields generalizing fields' refs with
  | nil =>
    obtain ⟨rfl, -⟩ := Prod.mk.inj (Except.ok.inj h)
    exact .nil
  | cons field rest ih =>
    obtain ⟨key, v⟩ := field
    rw [substituteFields] at h
    rcases hv : substituteInner vars v with f | ⟨v', refs'⟩ <;> rw [hv] at h
    · exact nomatch h
    · rcases hrest : substituteFields vars rest with f | ⟨rest', refs''⟩ <;> rw [hrest] at h
      · exact nomatch h
      · obtain ⟨rfl, -⟩ := Prod.mk.inj (Except.ok.inj h)
        exact .cons ⟨rfl, refs', hv⟩ (ih hrest)

/-- An array stays an array, item by item. -/
theorem substituted_array {items : List Value} {v' : Value}
    (h : Substituted vars (.array items) v') :
    ∃ items', v' = .array items' ∧ List.Forall₂ (Substituted vars) items items' := by
  obtain ⟨refs, h⟩ := h
  rw [substituteInner] at h
  rcases hitems : substituteItems vars items with f | ⟨items', refs'⟩ <;> rw [hitems] at h
  · cases h
  · obtain ⟨rfl, -⟩ := Prod.mk.inj (Except.ok.inj h)
    exact ⟨items', rfl, substituted_items hitems⟩

/-- An object stays an object, field by field. -/
theorem substituted_object {fields : List (String × Value)} {v' : Value}
    (h : Substituted vars (.object fields) v') :
    ∃ fields', v' = .object fields' ∧ List.Forall₂ (FieldSubstituted vars) fields fields' := by
  obtain ⟨refs, h⟩ := h
  rw [substituteInner] at h
  rcases hfields : substituteFields vars fields with f | ⟨fields', refs'⟩ <;> rw [hfields] at h
  · cases h
  · obtain ⟨rfl, -⟩ := Prod.mk.inj (Except.ok.inj h)
    exact ⟨fields', rfl, substituted_fields hfields⟩

theorem substituted_string {s : String} {v' : Value} (h : Substituted vars (.string s) v') :
    ∃ refs, substituteText vars s = .ok (v', refs) := by
  obtain ⟨refs, h⟩ := h
  rw [substituteInner] at h
  exact ⟨refs, h⟩

/-- Numbers, truth values and `null` stay. -/
theorem substituted_null {v' : Value} (h : Substituted vars .null v') : v' = .null := by
  obtain ⟨refs, h⟩ := h
  rw [substituteInner] at h
  exact (Prod.mk.inj (Except.ok.inj h)).1.symm

theorem substituted_bool {b : Bool} {v' : Value} (h : Substituted vars (.bool b) v') :
    v' = .bool b := by
  obtain ⟨refs, h⟩ := h
  rw [substituteInner] at h
  exact (Prod.mk.inj (Except.ok.inj h)).1.symm

theorem substituted_number {n : Number} {v' : Value} (h : Substituted vars (.number n) v') :
    v' = .number n := by
  obtain ⟨refs, h⟩ := h
  rw [substituteInner] at h
  exact (Prod.mk.inj (Except.ok.inj h)).1.symm

/-- Texts without a dollar sign stay. -/
theorem substituteText_plain {s : String} (h : '$' ∉ s.toList) :
    substituteText vars s = .ok (.string s, []) := by
  have htemplate : splitTemplate s.toList = none :=
    splitTemplate_eq_none.mpr fun hpart => h (hpart.subset List.mem_cons_self)
  have hhead : s.toList.head? ≠ some '$' := by
    intro hhead
    exact h (List.mem_of_mem_head? hhead)
  rw [substituteText, htemplate, if_neg (by simp), if_neg hhead]

theorem substituted_plain {s : String} {v' : Value} (hplain : '$' ∉ s.toList)
    (h : Substituted vars (.string s) v') : v' = .string s := by
  obtain ⟨refs, h⟩ := substituted_string h
  rw [substituteText_plain hplain] at h
  exact (Prod.mk.inj (Except.ok.inj h)).1.symm

/-! ## Looking up fields -/

theorem lookup_substituted {fields fields' : List (String × Value)}
    (h : List.Forall₂ (FieldSubstituted vars) fields fields') (key : String) :
    Option.Rel (Substituted vars) (fields.lookup key) (fields'.lookup key) := by
  induction h with
  | nil => exact .none
  | @cons f f' rest rest' hf _ ih =>
    obtain ⟨k, v⟩ := f
    obtain ⟨k', v'⟩ := f'
    obtain ⟨rfl, hv⟩ := hf
    rw [List.lookup_cons, List.lookup_cons]
    by_cases hkey : key == k
    · rw [hkey]
      exact .some hv
    · rw [Bool.not_eq_true] at hkey
      rw [hkey]
      exact ih

/-- The structs that substitution leaves structs. -/
inductive BodySubstituted (vars : VarStore) : Value → Value → Prop where
  | object {fields fields' : List (String × Value)}
      (h : List.Forall₂ (FieldSubstituted vars) fields fields') :
      BodySubstituted vars (.object fields) (.object fields')
  | array {items items' : List Value} (h : List.Forall₂ (Substituted vars) items items') :
      BodySubstituted vars (.array items) (.array items')

theorem zip_substituted {items items' : List Value}
    (h : List.Forall₂ (Substituted vars) items items') (names : List String) :
    List.Forall₂ (FieldSubstituted vars) (names.zip items) (names.zip items') := by
  induction h generalizing names with
  | nil =>
    rw [List.zip_nil_right]
    exact .nil
  | cons hv _ ih =>
    cases names with
    | nil => exact .nil
    | cons name names => exact .cons ⟨rfl, hv⟩ (ih names)

/-- The fields of a struct, before and after. -/
theorem asStruct_substituted {v v' : Value} (h : BodySubstituted vars v v') {names : List String}
    {defaults : Nat} {field : String → Option Value}
    (hread : v.asStruct names defaults = some field) :
    ∃ field', v'.asStruct names defaults = some field' ∧
      ∀ key, Option.Rel (Substituted vars) (field key) (field' key) := by
  cases h with
  | @object fields fields' hfields =>
    obtain rfl := Option.some.inj hread
    exact ⟨_, rfl, lookup_substituted hfields⟩
  | @array items items' hitems =>
    rw [Value.asStruct] at hread
    split at hread
    · rename_i hlen
      obtain rfl := Option.some.inj hread
      rw [hitems.length_eq] at hlen
      exact ⟨_, if_pos hlen, lookup_substituted (zip_substituted hitems names)⟩
    · exact nomatch hread

/-! ## Readers -/

/-- What the reader reads is no text, and stays. -/
def ReadsLiteral (vars : VarStore) {α : Type} (read : Value → Option α) : Prop :=
  ∀ v v' a, Substituted vars v v' → read v = some a → read v' = some a

theorem asU64_literal : ReadsLiteral vars Value.asU64 := by
  intro v v' a h hread
  cases v with
  | number n =>
    obtain rfl := substituted_number h
    exact hread
  | _ => exact nomatch hread

theorem asU8_literal : ReadsLiteral vars Value.asU8 := by
  intro v v' a h hread
  cases v with
  | number n =>
    obtain rfl := substituted_number h
    exact hread
  | _ => exact nomatch hread

theorem asBool_literal : ReadsLiteral vars Value.asBool := by
  intro v v' a h hread
  cases v with
  | bool b =>
    obtain rfl := substituted_bool h
    exact hread
  | _ => exact nomatch hread

theorem mapM_substituted {α : Type} {read : Value → Option α} {f : α → Option α}
    (hread : ∀ v v' a, Substituted vars v v' → read v = some a → read v' = f a)
    {items items' : List Value} (h : List.Forall₂ (Substituted vars) items items') {as : List α}
    (has : items.mapM read = some as) : items'.mapM read = as.mapM f := by
  induction h generalizing as with
  | nil =>
    obtain rfl := Option.some.inj has
    rfl
  | cons hv _ ih =>
    rw [List.mapM_cons] at has
    obtain ⟨a, ha, has⟩ := Option.bind_eq_some_iff.mp has
    obtain ⟨rest, hrest, has⟩ := Option.bind_eq_some_iff.mp has
    obtain rfl := Option.some.inj has
    rw [List.mapM_cons, List.mapM_cons, hread _ _ a hv ha, ih hrest]

theorem mapM_some {α : Type} (as : List α) : as.mapM some = some as := by
  induction as with
  | nil => rfl
  | cons a rest ih =>
    rw [List.mapM_cons, ih]
    rfl

theorem asVec_literal {α : Type} {read : Value → Option α} (hliteral : ReadsLiteral vars read) :
    ReadsLiteral vars (Value.asVec read) := by
  intro v v' as h hread
  cases v with
  | array items =>
    obtain ⟨items', rfl, hitems⟩ := substituted_array h
    exact (mapM_substituted hliteral hitems hread).trans (mapM_some as)
  | _ => exact nomatch hread

theorem asString_substituted {v v' : Value} {s : String} (h : Substituted vars v v')
    (hread : v.asString = some s) : v'.asString = substituteString vars s := by
  cases v with
  | string t =>
    obtain rfl := Option.some.inj hread
    obtain ⟨refs, htext⟩ := substituted_string h
    rw [substituteString, htext]
    cases v' <;> rfl
  | _ => exact nomatch hread

/-! ## Readers of fields -/

section Fields

variable {o o' : Option Value}

theorem required_substituted {α : Type} {read : Value → Option α} {f : α → Option α}
    (hread : ∀ v v' a, Substituted vars v v' → read v = some a → read v' = f a)
    (h : Option.Rel (Substituted vars) o o') {a : α} (ha : Value.required read o = some a) :
    Value.required read o' = f a := by
  cases h with
  | none => exact nomatch ha
  | some hv => exact hread _ _ a hv ha

theorem defaulted_literal {α : Type} {read : Value → Option α} (hliteral : ReadsLiteral vars read)
    {default : α} (h : Option.Rel (Substituted vars) o o') {a : α}
    (ha : Value.defaulted read default o = some a) : Value.defaulted read default o' = some a := by
  cases h with
  | none => exact ha
  | some hv => exact hliteral _ _ a hv ha

theorem optional_of_ne_null {α : Type} {read : Value → Option α} {v : Value} (h : v ≠ .null) :
    Value.optional read (some v) = (read v).map some := by
  cases v with
  | null => exact absurd rfl h
  | _ => rfl

theorem optional_literal {α : Type} {read : Value → Option α} (hliteral : ReadsLiteral vars read)
    (hnull : read .null = none) (h : Option.Rel (Substituted vars) o o') {a : Option α}
    (ha : Value.optional read o = some a) : Value.optional read o' = some a := by
  cases h with
  | none => exact ha
  | @some v v' hv =>
    by_cases hv0 : v = .null
    · subst hv0
      obtain rfl := substituted_null hv
      exact ha
    · rw [optional_of_ne_null hv0] at ha
      obtain ⟨b, hb, rfl⟩ := Option.map_eq_some_iff.mp ha
      have hb' := hliteral _ _ b hv hb
      have hv0' : v' ≠ .null := by
        intro heq
        rw [heq, hnull] at hb'
        exact nomatch hb'
      rw [optional_of_ne_null hv0', hb']
      rfl

theorem optionalString_substituted (h : Option.Rel (Substituted vars) o o') {a : Option String}
    (ha : Value.optional Value.asString o = some a) :
    Value.optional Value.asString o' = substituteOptString vars a := by
  cases h with
  | none =>
    obtain rfl := Option.some.inj ha
    rfl
  | @some v v' hv =>
    cases v with
    | null =>
      obtain rfl := substituted_null hv
      obtain rfl := Option.some.inj ha
      rfl
    | string s =>
      obtain rfl := Option.some.inj ha
      obtain ⟨refs, htext⟩ := substituted_string hv
      rw [substituteOptString, htext]
      cases v' <;> rfl
    | _ => exact nomatch ha

/-! ## Tips -/

theorem bodySubstituted_of_asStruct {v v' : Value} (h : Substituted vars v v')
    {names : List String} {defaults : Nat} {field : String → Option Value}
    (hread : v.asStruct names defaults = some field) : BodySubstituted vars v v' := by
  cases v with
  | object fields =>
    obtain ⟨fields', rfl, hfields⟩ := substituted_object h
    exact .object hfields
  | array items =>
    obtain ⟨items', rfl, hitems⟩ := substituted_array h
    exact .array hitems
  | _ => exact nomatch hread

theorem tipSpec_substituted {v v' : Value} {tip : TipSpec} (h : Substituted vars v v')
    (hread : TipSpec.fromValue v = some tip) :
    TipSpec.fromValue v' = tip.substitute vars ∧ v' ≠ .null := by
  obtain ⟨field, hfield, hread⟩ := Option.bind_eq_some_iff.mp hread
  have hbody := bodySubstituted_of_asStruct h hfield
  obtain ⟨field', hfield', hrel⟩ := asStruct_substituted hbody hfield
  obtain ⟨point, hpoint, hread⟩ := Option.bind_eq_some_iff.mp hread
  obtain ⟨blockNumber, hnumber, hread⟩ := Option.bind_eq_some_iff.mp hread
  obtain rfl := Option.some.inj hread
  have hpoint' := required_substituted (fun _ _ _ => asString_substituted) (hrel "point") hpoint
  have hnumber' := required_substituted asU64_literal (hrel "block_number") hnumber
  refine ⟨?_, ?_⟩
  · rw [TipSpec.fromValue, hfield']
    show (Value.required Value.asString ( field' "point")).bind _ = _
    rw [hpoint', hnumber', TipSpec.substitute]
    rcases substituteString vars point with _ | text <;> rfl
  · cases hbody <;> exact fun h => nomatch h

theorem optionalTip_substituted (h : Option.Rel (Substituted vars) o o') {a : Option TipSpec}
    (ha : Value.optional TipSpec.fromValue o = some a) :
    Value.optional TipSpec.fromValue o' = substituteOptTip vars a := by
  cases h with
  | none =>
    obtain rfl := Option.some.inj ha
    rfl
  | @some v v' hv =>
    by_cases hv0 : v = .null
    · subst hv0
      obtain rfl := substituted_null hv
      obtain rfl := Option.some.inj ha
      rfl
    · rw [optional_of_ne_null hv0] at ha
      obtain ⟨tip, htip, rfl⟩ := Option.map_eq_some_iff.mp ha
      obtain ⟨htip', hv0'⟩ := tipSpec_substituted hv htip
      rw [optional_of_ne_null hv0', htip', substituteOptTip]

end Fields

/-! ## Rules -/

/-- A message name is no reference. -/
theorem on_literal : ReadsLiteral vars On.fromValue := by
  intro v v' on h hread
  cases v with
  | string s =>
    have hplain : '$' ∉ s.toList := by
      unfold On.fromValue Value.asVariantName at hread
      split at hread <;> first | (rename_i heq; cases heq; decide) | exact nomatch hread
    obtain rfl := substituted_plain hplain h
    exact hread
  | object fields =>
    obtain ⟨fields', rfl, hfields⟩ := substituted_object h
    cases hfields with
    | nil => exact nomatch hread
    | @cons f f' rest rest' hf hrest =>
      obtain ⟨key, v⟩ := f
      obtain ⟨key', v'⟩ := f'
      obtain ⟨rfl, hv⟩ := hf
      cases hrest with
      | nil =>
        cases v with
        | null =>
          obtain rfl := substituted_null hv
          exact hread
        | _ => exact nomatch hread
      | cons => cases v <;> exact nomatch hread
  | _ => exact nomatch hread

theorem asUnit_substituted {α : Type} {v v' : Value} (h : BodySubstituted vars v v') {a b : α}
    (hread : v.asUnit a = some b) : v'.asUnit a = some b := by
  cases h with
  | object => exact hread
  | array hitems =>
    cases hitems with
    | nil => exact hread
    | cons => exact nomatch hread

theorem asUnit_eq {α : Type} {v : Value} {a b : α} (h : v.asUnit a = some b) : b = a := by
  unfold Value.asUnit at h
  split at h
  · exact (Option.some.inj h).symm
  · exact (Option.some.inj h).symm
  · exact nomatch h

/-- The name of a kind is no reference. -/
theorem kind_plain {kind : String} {body : Value} {d : SendDef}
    (hread : SendDef.flatFromValue kind body = some d) : '$' ∉ kind.toList := by
  unfold SendDef.flatFromValue at hread
  split at hread <;> first | decide | exact nomatch hread

/-- A point and a tip, as in `roll_backward` and `intersect_found`. -/
theorem pointAndTip_substituted {body body' : Value} (h : BodySubstituted vars body body')
    (make : String → Option TipSpec → SendDef) {d : SendDef}
    (hread : (do
      let field ← body.asStruct ["point", "tip"] 0
      return make (← Value.required Value.asString (field "point"))
        (← Value.optional TipSpec.fromValue (field "tip"))) = some d) :
    ∃ point tip, d = make point tip ∧ (do
      let field ← body'.asStruct ["point", "tip"] 0
      return make (← Value.required Value.asString (field "point"))
        (← Value.optional TipSpec.fromValue (field "tip"))) =
      (substituteString vars point).bind fun point =>
        (substituteOptTip vars tip).map fun tip => make point tip := by
  obtain ⟨field, hfield, hread⟩ := Option.bind_eq_some_iff.mp hread
  obtain ⟨field', hfield', hrel⟩ := asStruct_substituted h hfield
  obtain ⟨point, hpoint, hread⟩ := Option.bind_eq_some_iff.mp hread
  obtain ⟨tip, htip, hread⟩ := Option.bind_eq_some_iff.mp hread
  obtain rfl := Option.some.inj hread
  have hpoint' := required_substituted (fun _ _ _ => asString_substituted) (hrel "point") hpoint
  refine ⟨point, tip, rfl, ?_⟩
  simp only [hfield', bind, Option.bind_some, hpoint', optionalTip_substituted (hrel "tip") htip]
  rcases substituteString vars point with _ | _ <;> rcases substituteOptTip vars tip with _ | _ <;>
    rfl

/-- **A send that contains no other.** -/
theorem flatFromValue_substituted {kind : String} {body body' : Value} {d : SendDef}
    (h : BodySubstituted vars body body') (hread : SendDef.flatFromValue kind body = some d) :
    SendDef.flatFromValue kind body' = d.substitute vars := by
  unfold SendDef.flatFromValue at hread
  split at hread
  case h_1 => -- roll_forward
    obtain ⟨field, hfield, hread⟩ := Option.bind_eq_some_iff.mp hread
    obtain ⟨field', hfield', hrel⟩ := asStruct_substituted h hfield
    obtain ⟨idx, hidx, hread⟩ := Option.bind_eq_some_iff.mp hread
    obtain ⟨cbor, hcbor, hread⟩ := Option.bind_eq_some_iff.mp hread
    obtain ⟨variant, hvariant, hread⟩ := Option.bind_eq_some_iff.mp hread
    obtain ⟨tip, htip, hread⟩ := Option.bind_eq_some_iff.mp hread
    obtain rfl := Option.some.inj hread
    simp only [SendDef.flatFromValue, hfield', bind, Option.bind_some,
      optional_literal asU64_literal rfl (hrel _) hidx, optionalString_substituted (hrel _) hcbor,
      optional_literal asU8_literal rfl (hrel _) hvariant, optionalTip_substituted (hrel _) htip]
    rw [SendDef.substitute]
    rcases substituteOptString vars cbor with _ | _ <;>
      rcases substituteOptTip vars tip with _ | _ <;> rfl
  case h_2 => -- roll_backward
    obtain ⟨point, tip, rfl, hread'⟩ := pointAndTip_substituted h .rollBackward hread
    rw [SendDef.substitute]
    exact hread'
  case h_3 => -- intersect_found
    obtain ⟨point, tip, rfl, hread'⟩ := pointAndTip_substituted h .intersectFound hread
    rw [SendDef.substitute]
    exact hread'
  case h_4 => -- intersect_not_found
    obtain ⟨field, hfield, hread⟩ := Option.bind_eq_some_iff.mp hread
    obtain ⟨field', hfield', hrel⟩ := asStruct_substituted h hfield
    obtain ⟨tip, htip, hread⟩ := Option.bind_eq_some_iff.mp hread
    obtain rfl := Option.some.inj hread
    simp only [SendDef.flatFromValue, hfield', bind, Option.bind_some,
      optionalTip_substituted (hrel _) htip]
    rw [SendDef.substitute]
    rcases substituteOptTip vars tip with _ | _ <;> rfl
  case h_5 => -- await_reply
    obtain ⟨field, hfield, hread⟩ := Option.bind_eq_some_iff.mp hread
    obtain ⟨field', hfield', hrel⟩ := asStruct_substituted h hfield
    obtain ⟨secs, hsecs, hread⟩ := Option.bind_eq_some_iff.mp hread
    obtain rfl := Option.some.inj hread
    simp only [SendDef.flatFromValue, hfield', bind, Option.bind_some,
      defaulted_literal asU64_literal (hrel _) hsecs]
    rfl
  case h_7 => -- block
    obtain ⟨field, hfield, hread⟩ := Option.bind_eq_some_iff.mp hread
    obtain ⟨field', hfield', hrel⟩ := asStruct_substituted h hfield
    obtain ⟨idx, hidx, hread⟩ := Option.bind_eq_some_iff.mp hread
    obtain ⟨cbor, hcbor, hread⟩ := Option.bind_eq_some_iff.mp hread
    obtain rfl := Option.some.inj hread
    simp only [SendDef.flatFromValue, hfield', bind, Option.bind_some,
      optional_literal asU64_literal rfl (hrel _) hidx, optionalString_substituted (hrel _) hcbor]
    rw [SendDef.substitute]
    rcases substituteOptString vars cbor with _ | _ <;> rfl
  case h_10 => -- stream_batch
    obtain ⟨field, hfield, hread⟩ := Option.bind_eq_some_iff.mp hread
    obtain ⟨field', hfield', hrel⟩ := asStruct_substituted h hfield
    obtain ⟨indices, hindices, hread⟩ := Option.bind_eq_some_iff.mp hread
    obtain ⟨fromRequest, hrequest, hread⟩ := Option.bind_eq_some_iff.mp hread
    obtain rfl := Option.some.inj hread
    simp only [SendDef.flatFromValue, hfield', bind, Option.bind_some,
      optional_literal (asVec_literal asU64_literal) rfl (hrel _) hindices,
      optional_literal asBool_literal rfl (hrel _) hrequest]
    rfl
  case h_11 => -- wait
    obtain ⟨field, hfield, hread⟩ := Option.bind_eq_some_iff.mp hread
    obtain ⟨field', hfield', hrel⟩ := asStruct_substituted h hfield
    obtain ⟨secs, hsecs, hread⟩ := Option.bind_eq_some_iff.mp hread
    obtain rfl := Option.some.inj hread
    simp only [SendDef.flatFromValue, hfield', bind, Option.bind_some,
      required_substituted asU64_literal (hrel _) hsecs]
    rfl
  case h_13 => -- raw_bytes
    obtain ⟨field, hfield, hread⟩ := Option.bind_eq_some_iff.mp hread
    obtain ⟨field', hfield', hrel⟩ := asStruct_substituted h hfield
    obtain ⟨hex, hhex, hread⟩ := Option.bind_eq_some_iff.mp hread
    obtain rfl := Option.some.inj hread
    have hhex' := required_substituted (fun _ _ _ => asString_substituted) (hrel "hex") hhex
    simp only [SendDef.flatFromValue, hfield', bind, Option.bind_some, hhex']
    rw [SendDef.substitute]
    rcases substituteString vars hex with _ | _ <;> rfl
  case h_14 => exact nomatch hread
  -- the kinds without fields
  all_goals
    have hunit := asUnit_substituted h hread
    obtain rfl := asUnit_eq hread
    rw [SendDef.flatFromValue, hunit]
    rfl

theorem withoutKind_substituted {fields fields' : List (String × Value)}
    (h : List.Forall₂ (FieldSubstituted vars) fields fields') :
    List.Forall₂ (FieldSubstituted vars) (fields.filter fun f => f.1 ≠ "kind")
      (fields'.filter fun f => f.1 ≠ "kind") := by
  induction h with
  | nil => exact .nil
  | @cons f f' rest rest' hf _ ih =>
    have hkey := hf.1
    by_cases hkind : f.1 = "kind"
    · rw [List.filter_cons_of_neg (by simpa using hkind),
        List.filter_cons_of_neg (by rw [← hkey]; simpa using hkind)]
      exact ih
    · rw [List.filter_cons_of_pos (by simpa using hkind),
        List.filter_cons_of_pos (by rw [← hkey]; simpa using hkind)]
      exact .cons hf ih

mutual

/-- **A send.** -/
theorem sendDef_substituted : ∀ {v v' : Value} {d : SendDef}, Substituted vars v v' →
    SendDef.fromValue v = some d → SendDef.fromValue v' = d.substitute vars
  | .object fields, v', d, h, hread => by
    obtain ⟨fields', rfl, hfields⟩ := substituted_object h
    have hlookup := lookup_substituted hfields "kind"
    rw [SendDef.fromValue] at hread ⊢
    generalize fields.lookup "kind" = kindField at hlookup hread
    generalize fields'.lookup "kind" = kindField' at hlookup
    cases hlookup with
    | none => exact nomatch hread
    | @some kindValue kindValue' hkind =>
      cases kindValue with
      | string kind =>
        dsimp only at hread
        by_cases hseq : kind = "send_sequence"
        · subst hseq
          obtain rfl := substituted_plain (by decide) hkind
          rw [if_pos rfl] at hread
          obtain ⟨sends, hsends, rfl⟩ := Option.map_eq_some_iff.mp hread
          dsimp only
          rw [if_pos rfl, sendsField_substituted hfields hsends, SendDef.substitute]
        · rw [if_neg hseq] at hread
          obtain rfl := substituted_plain (kind_plain hread) hkind
          dsimp only
          rw [if_neg hseq]
          exact flatFromValue_substituted (.object (withoutKind_substituted hfields)) hread
      | _ => exact nomatch hread
  | .array [], _, _, _, hread => nomatch hread
  | .array (.string kind :: items), v', d, h, hread => by
    obtain ⟨all', rfl, hall⟩ := substituted_array h
    cases hall with
    | @cons _ kindValue' _ items' hkind hitems =>
      rw [SendDef.fromValue] at hread
      by_cases hseq : kind = "send_sequence"
      · subst hseq
        obtain rfl := substituted_plain (by decide) hkind
        rw [if_pos rfl] at hread
        obtain ⟨sends, hsends, rfl⟩ := Option.map_eq_some_iff.mp hread
        rw [SendDef.fromValue, if_pos rfl, sendsOnly_substituted hitems hsends, SendDef.substitute]
      · rw [if_neg hseq] at hread
        obtain rfl := substituted_plain (kind_plain hread) hkind
        rw [SendDef.fromValue, if_neg hseq]
        exact flatFromValue_substituted (.array hitems) hread
  | .array (.null :: _), _, _, _, hread => nomatch hread
  | .array (.bool _ :: _), _, _, _, hread => nomatch hread
  | .array (.number _ :: _), _, _, _, hread => nomatch hread
  | .array (.array _ :: _), _, _, _, hread => nomatch hread
  | .array (.object _ :: _), _, _, _, hread => nomatch hread
  | .null, _, _, _, hread => nomatch hread
  | .bool _, _, _, _, hread => nomatch hread
  | .number _, _, _, _, hread => nomatch hread
  | .string _, _, _, _, hread => nomatch hread

theorem sendsField_substituted : ∀ {fields fields' : List (String × Value)} {ds : List SendDef},
    List.Forall₂ (FieldSubstituted vars) fields fields' → SendDef.sendsField fields = some ds →
    SendDef.sendsField fields' = SendDef.substituteList vars ds
  | [], _, _, _, hread => nomatch hread
  | (key, v) :: rest, (key', v') :: rest', ds, .cons hf hrest, hread => by
    obtain ⟨rfl, hv⟩ := hf
    rw [SendDef.sendsField] at hread ⊢
    by_cases hkey : key = "sends"
    · rw [if_pos hkey] at hread ⊢
      exact sendsValue_substituted hv hread
    · rw [if_neg hkey] at hread ⊢
      exact sendsField_substituted hrest hread

theorem sendsOnly_substituted : ∀ {items items' : List Value} {ds : List SendDef},
    List.Forall₂ (Substituted vars) items items' → SendDef.sendsOnly items = some ds →
    SendDef.sendsOnly items' = SendDef.substituteList vars ds
  | [], _, _, _, hread => nomatch hread
  | [_], [_], _, .cons hv .nil, hread => sendsValue_substituted hv hread
  | _ :: _ :: _, _, _, _, hread => nomatch hread

theorem sendsValue_substituted : ∀ {v v' : Value} {ds : List SendDef}, Substituted vars v v' →
    SendDef.sendsValue v = some ds → SendDef.sendsValue v' = SendDef.substituteList vars ds
  | .array items, v', ds, h, hread => by
    obtain ⟨items', rfl, hitems⟩ := substituted_array h
    exact listFromValues_substituted hitems hread
  | .null, _, _, _, hread => nomatch hread
  | .bool _, _, _, _, hread => nomatch hread
  | .number _, _, _, _, hread => nomatch hread
  | .string _, _, _, _, hread => nomatch hread
  | .object _, _, _, _, hread => nomatch hread

theorem listFromValues_substituted : ∀ {items items' : List Value} {ds : List SendDef},
    List.Forall₂ (Substituted vars) items items' → SendDef.listFromValues items = some ds →
    SendDef.listFromValues items' = SendDef.substituteList vars ds
  | [], _, ds, .nil, hread => by
    obtain rfl := Option.some.inj hread
    rfl
  | v :: rest, v' :: rest', ds, .cons hv hrest, hread => by
    rw [SendDef.listFromValues] at hread
    rcases hd : SendDef.fromValue v with _ | d
    · rw [hd] at hread
      exact nomatch hread
    · rcases hds : SendDef.listFromValues rest with _ | others
      · rw [hd, hds] at hread
        exact nomatch hread
      · rw [hd, hds] at hread
        obtain rfl := Option.some.inj hread
        rewrite [SendDef.listFromValues, sendDef_substituted hv hd,
          listFromValues_substituted hrest hds,
          SendDef.substituteList]
        rcases d.substitute vars with _ | _ <;>
          rcases SendDef.substituteList vars others with _ | _ <;> rfl

end

theorem ruleDef_substituted {v v' : Value} {rule : ResponseRuleDef} (h : Substituted vars v v')
    (hread : ResponseRuleDef.fromValue v = some rule) :
    ResponseRuleDef.fromValue v' = rule.substitute vars := by
  obtain ⟨field, hfield, hread⟩ := Option.bind_eq_some_iff.mp hread
  obtain ⟨field', hfield', hrel⟩ :=
    asStruct_substituted (bodySubstituted_of_asStruct h hfield) hfield
  obtain ⟨on, hon, hread⟩ := Option.bind_eq_some_iff.mp hread
  obtain ⟨send, hsend, hread⟩ := Option.bind_eq_some_iff.mp hread
  obtain rfl := Option.some.inj hread
  have hsend' := required_substituted (fun _ _ _ => sendDef_substituted) (hrel "send") hsend
  simp only [ResponseRuleDef.fromValue, hfield', bind, Option.bind_some,
    required_substituted on_literal (hrel "on") hon, hsend']
  rw [ResponseRuleDef.substitute]
  rcases send.substitute vars with _ | _ <;> rfl

/-- **A list of responses**: reading it after substitution is substituting in what was
read. -/
theorem ruleDefs_substituted {v v' : Value} {rules : List ResponseRuleDef}
    (h : Substituted vars v v') (hread : ruleDefsFromValue v = some rules) :
    ruleDefsFromValue v' = rules.mapM (·.substitute vars) := by
  cases v with
  | array items =>
    obtain ⟨items', rfl, hitems⟩ := substituted_array h
    exact mapM_substituted (fun _ _ _ => ruleDef_substituted) hitems hread
  | _ => exact nomatch hread

end Proof

end ConformanceHarness
