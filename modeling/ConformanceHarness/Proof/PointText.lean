import ConformanceHarness.Proof.ReferenceGrammar
import ConformanceHarness.Proof.Substitution
import ConformanceHarness.Scenario.Point
import ConformanceHarness.Scenario.StepParams
import ConformanceHarness.Trace

/-!
# Points in variables

`point_to_str` writes a point into a variable, and `parse_point` reads it from the parameters of a
later step. Whatever the point, the one inverts the other: the slot is read from its digits, the
hash from its hex, and no text of a point of the chain is `"origin"`.
-/

namespace ConformanceHarness

/-- What a `chain_sync` step stores. -/
def storedPoints (points : List Point) : Value :=
  .array (points.map fun p => .string (pointToStr p))

/-- What a `query_tip` step stores. -/
def storedTip (point : Point) (blockNumber : UInt64) : Value :=
  .object [("block_number", .ofU64 blockNumber), ("point", .string (pointToStr point))]

/-- A name that `$name` refers to. -/
def PlainName (name : String) : Prop :=
  '.' ∉ name.toList ∧ '[' ∉ name.toList ∧ '\x7b' ∉ name.toList

namespace Proof

/-! ## One point -/

theorem pointToStr_toList (slot : UInt64) (hash : List UInt8) :
    (pointToStr (.specific slot hash)).toList =
      Nat.toDigits 10 slot.toNat ++ ':' :: (encodeHex hash).toList := by
  have htext : pointToStr (.specific slot hash) = slot.toNat.repr ++ ":" ++ encodeHex hash := by
    simp [pointToStr]
    rfl
  rw [htext, String.toList_append, String.toList_append, Nat.toList_repr, List.append_assoc]
  rfl

/-- **Reading back what `point_to_str` wrote.** -/
theorem parsePoint_pointToStr (p : Point) : parsePoint (pointToStr p) = .ok p := by
  cases p with
  | origin => rfl
  | specific slot hash =>
    have htext := pointToStr_toList slot hash
    have horigin : pointToStr (.specific slot hash) ≠ "origin" := by
      intro h
      have hcolon : ':' ∈ (pointToStr (.specific slot hash)).toList := by
        rw [htext]
        exact List.mem_append_right _ List.mem_cons_self
      rw [h] at hcolon
      revert hcolon
      decide
    have hdigits : ':' ∉ Nat.toDigits 10 slot.toNat := by
      intro hmem
      have hdigit := Nat.isDigit_of_mem_toDigits (by decide) (by decide) hmem
      revert hdigit
      decide
    have hsplit : splitOnce ':' (pointToStr (.specific slot hash)).toList =
        some (Nat.toDigits 10 slot.toNat, (encodeHex hash).toList) :=
      splitOnce_eq_some.mpr ⟨htext, hdigits⟩
    have hslot : UInt64.ofNat slot.toNat = slot := UInt64.ofNat_toNat
    rw [parsePoint, if_neg horigin, hsplit]
    dsimp only
    rw [parseUnsigned_toDigits slot.toNat_lt, String.ofList_toList, Scenario.decodeHex,
      decodeHexWith_encodeHex, withContext_ok]
    dsimp only
    rw [hslot]

theorem mapEntries_pointToStr (points : List Point) :
    mapEntries parsePoint (points.map pointToStr) = .ok points := by
  induction points with
  | nil => rfl
  | cons p rest ih =>
    rw [List.map_cons, mapEntries, parsePoint_pointToStr]
    dsimp only
    rw [ih]

/-! ## References to stored points -/

section

variable {vars : VarStore} {name : String} {v : Value}

/-- A text that begins with one dollar sign is no template. -/
theorem splitTemplate_reference {rest : List Char} (h : '\x7b' ∉ rest) :
    splitTemplate ('$' :: rest) = none := by
  refine splitTemplate_eq_none.mpr fun hinfix => ?_
  have hmem : '\x7b' ∈ '$' :: rest :=
    hinfix.subset (List.mem_cons_of_mem '$' List.mem_cons_self)
  rcases List.mem_cons.mp hmem with hdollar | hmem
  · exact absurd hdollar (by decide)
  · exact h hmem

/-- What a reference is replaced by. -/
theorem substituteText_reference {e : String} {rest : List Char} (htext : e.toList = '$' :: rest)
    (hbrace : '\x7b' ∉ rest) (hresolve : resolveRef e vars = .ok v) :
    substituteText vars e = .ok (v, [(e, v.typeName)]) := by
  have hhead : e.toList.head? = some '$' := by
    rw [htext]
    rfl
  have htemplate : ¬ (splitTemplate e.toList).isSome = true := by
    rw [htext, splitTemplate_reference hbrace]
    exact Bool.false_ne_true
  rw [substituteText, if_neg htemplate, if_pos hhead, hresolve, withContext_ok]

theorem name_toList (name : String) : ("$" ++ name).toList = '$' :: name.toList := by simp

theorem field_toList (name field : String) :
    ("$" ++ name ++ "." ++ field).toList = '$' :: (name.toList ++ '.' :: field.toList) := by simp

/-- `$name` is replaced by the variable. -/
theorem substituteText_name (hname : PlainName name) (hstored : vars name = some v) :
    substituteText vars ("$" ++ name) = .ok (v, [("$" ++ name, v.typeName)]) := by
  obtain ⟨hdot, hbracket, hbrace⟩ := hname
  refine substituteText_reference (name_toList name) hbrace ?_
  refine resolveRef_of_resolves (.whole hdot hbracket ?_) (name_toList name)
  rw [String.ofList_toList]
  exact hstored

/-- `$name.point` is replaced by the field of the variable. -/
theorem substituteText_point {w : Value} (hname : PlainName name) (hstored : vars name = some v)
    (hfield : v.getField "point" = some w) :
    substituteText vars ("$" ++ name ++ "." ++ "point") =
      .ok (w, [("$" ++ name ++ "." ++ "point", w.typeName)]) := by
  obtain ⟨hdot, hbracket, hbrace⟩ := hname
  have htext := field_toList name "point"
  refine substituteText_reference htext ?_ ?_
  · intro hmem
    rcases List.mem_append.mp hmem with hmem | hmem
    · exact hbrace hmem
    · revert hmem
      decide
  · have hbase : vars (String.ofList name.toList) = some v := by
      rw [String.ofList_toList]
      exact hstored
    exact resolveRef_of_resolves (.field hdot hbase hfield) htext

end

/-! ## Reading stored points -/

theorem mapM_asString (texts : List String) :
    (texts.map Value.string).mapM Value.asString = some texts := by
  induction texts with
  | nil => rfl
  | cons s rest ih =>
    rw [List.map_cons, List.mapM_cons, ih]
    rfl

section

variable {vars : VarStore} {fields : List (String × Value)} {resolved : Value}
  {params : StepParams}

/-- What substitution leaves of a field. -/
theorem resolved_field {key : String} {v : Value}
    (hsub : Substituted vars (.object fields) resolved) (hfield : fields.lookup key = some v) :
    ∃ fields' v', resolved = .object fields' ∧ fields'.lookup key = some v' ∧
      Substituted vars v v' := by
  obtain ⟨fields', rfl, hall⟩ := substituted_object hsub
  have hlookup := lookup_substituted hall key
  rw [hfield] at hlookup
  rcases hfound : fields'.lookup key with _ | v'
  · rw [hfound] at hlookup
    cases hlookup
  · rw [hfound] at hlookup
    cases hlookup with
    | some hv => exact ⟨fields', v', rfl, hfound, hv⟩

/-- A text is replaced by the value it resolves to. -/
theorem substituted_text {e : String} {v v' : Value} {refs : List (String × String)}
    (h : Substituted vars (.string e) v') (hvalue : substituteText vars e = .ok (v, refs)) :
    v' = v := by
  obtain ⟨refs', h⟩ := substituted_string h
  exact (Prod.mk.inj (Except.ok.inj (h.symm.trans hvalue))).1

theorem storedPoints_texts (points : List Point) :
    Value.asVec Value.asString (storedPoints points) = some (points.map pointToStr) := by
  have htexts := mapM_asString (points.map pointToStr)
  rw [List.map_map] at htexts
  exact htexts

/-- The intersection points of a step that is given stored points. -/
theorem read_intersectionPoints {points : List Point} {fields' : List (String × Value)}
    (hfield : fields'.lookup "intersection_points" = some (storedPoints points))
    (hparams : StepParams.fromValue (.object fields') = some params) :
    mapEntries parsePoint (params.intersectionPoints.getD ["origin"]) = .ok points := by
  have hread := StepParams.fromValue_intersectionPoints hparams
  have hvec : Value.optional (Value.asVec Value.asString) (some (storedPoints points)) =
      (Value.asVec Value.asString (storedPoints points)).map some := rfl
  rw [hfield, hvec, storedPoints_texts] at hread
  rw [← Option.some.inj hread]
  exact mapEntries_pointToStr points

/-- The points a step fetches that is given stored points. -/
theorem read_points {points : List Point} {fields' : List (String × Value)}
    (hfield : fields'.lookup "points" = some (storedPoints points))
    (hparams : StepParams.fromValue (.object fields') = some params) :
    ∃ strings, params.points = some (.explicit strings) ∧
      mapEntries parsePoint strings = .ok points := by
  have hread := StepParams.fromValue_points hparams
  have hvec : Value.optional BlockFetchPoints.fromValue (some (storedPoints points)) =
      ((Value.asVec Value.asString (storedPoints points)).map .explicit).map some := rfl
  rw [hfield, hvec, storedPoints_texts] at hread
  exact ⟨points.map pointToStr, (Option.some.inj hread).symm, mapEntries_pointToStr points⟩

/-- **Points survive the variable store.** The text of a point reads back as the point; so a step
whose `intersection_points` or `points` refer to what a `chain_sync` step has stored is given the
points of that step, and one that refers to the point of a stored tip is given that point. -/
theorem points_survive : (∀ p, parsePoint (pointToStr p) = .ok p) ∧
    ∀ (vars : VarStore) (name : String) (fields : List (String × Value)) (resolved : Value)
      (params : StepParams), PlainName name → Substituted vars (.object fields) resolved →
      StepParams.fromValue resolved = some params →
      (∀ points, vars name = some (storedPoints points) →
        fields.lookup "intersection_points" = some (.string ("$" ++ name)) →
        mapEntries parsePoint (params.intersectionPoints.getD ["origin"]) = .ok points) ∧
      (∀ points, vars name = some (storedPoints points) →
        fields.lookup "points" = some (.string ("$" ++ name)) →
        ∃ strings, params.points = some (.explicit strings) ∧
          mapEntries parsePoint strings = .ok points) ∧
      ∀ point blockNumber, vars name = some (storedTip point blockNumber) →
        fields.lookup "intersection_points" =
          some (.array [.string ("$" ++ name ++ "." ++ "point")]) →
        mapEntries parsePoint (params.intersectionPoints.getD ["origin"]) = .ok [point] := by
  refine ⟨parsePoint_pointToStr, fun vars name fields resolved params hname hsub hparams => ?_⟩
  refine ⟨fun points hstored hfield => ?_, fun points hstored hfield => ?_,
    fun point blockNumber hstored hfield => ?_⟩
  · obtain ⟨fields', v', rfl, hfound, hv⟩ := resolved_field hsub hfield
    obtain rfl := substituted_text hv (substituteText_name hname hstored)
    exact read_intersectionPoints hfound hparams
  · obtain ⟨fields', v', rfl, hfound, hv⟩ := resolved_field hsub hfield
    obtain rfl := substituted_text hv (substituteText_name hname hstored)
    exact read_points hfound hparams
  · obtain ⟨fields', v', rfl, hfound, hv⟩ := resolved_field hsub hfield
    obtain ⟨items', rfl, hitems⟩ := substituted_array hv
    cases hitems with
    | cons hitem hrest =>
      cases hrest
      obtain rfl := substituted_text hitem (substituteText_point hname hstored rfl)
      exact read_intersectionPoints hfound hparams

end

end Proof

end ConformanceHarness
