import ConformanceHarness.Scenario.Json

/-!
# Variables

`scenario/vars.rs`: the variable store of a run, references into it, and the
substitution that replaces them in a step's parameters. Text is handled as its
list of characters: the source slices it only next to ASCII characters.
-/

namespace ConformanceHarness

/-- `HashMap<String, Value>`, as its lookup. -/
abbrev VarStore := String → Option Value

/-- `HashMap::insert`. -/
def VarStore.insert (vars : VarStore) (name : String) (v : Value) : VarStore :=
  fun other => if other = name then some v else vars other

/-- `split_once`, and `find` with the slices around the match. -/
def splitOnce (c : Char) : List Char → Option (List Char × List Char)
  | [] => none
  | d :: rest =>
    if d = c then some ([], rest)
    else (splitOnce c rest).map fun (before, after) => (d :: before, after)

/-- `find("${")`, with the text before and after the match. -/
def splitTemplate : List Char → Option (List Char × List Char)
  | [] => none
  | '$' :: '{' :: rest => some ([], rest)
  | d :: rest => (splitTemplate rest).map fun (before, after) => (d :: before, after)

/-- `trim_end_matches(']')`. -/
def trimEndBrackets (cs : List Char) : List Char := (cs.reverse.dropWhile (· = ']')).reverse

/-- The digits of a decimal number; `acc` is what was read so far. -/
def parseDigits : Nat → List Char → Except String Nat
  | acc, [] => .ok acc
  | acc, c :: rest =>
    if c.isDigit then
      let acc' := acc * 10 + (c.toNat - 48)
      if acc' < 2 ^ 64 then parseDigits acc' rest
      else .error "number too large to fit in target type"
    else .error "invalid digit found in string"

/-- `str::parse` for `usize` and `u64`: a leading `+` is accepted. -/
def parseUnsigned : List Char → Except String Nat
  | [] => .error "cannot parse integer from empty string"
  | ['+'] => .error "invalid digit found in string"
  | '+' :: digits => parseDigits 0 digits
  | digits => parseDigits 0 digits

/-- `resolve_ref`: `$name`, `$name.field` or `$name[i]`. -/
def resolveRef (expr : String) (vars : VarStore) : Except Fault Value :=
  match expr.toList with
  | '$' :: rest =>
    match splitOnce '.' rest with
    | some (name, field) =>
      let name := String.ofList name
      let field := String.ofList field
      match vars name with
      | none => bail s!"unknown variable: \"{name}\""
      | some base =>
        match base.getField field with
        | none => bail s!"\"{name}\" has no field \"{field}\""
        | some v => .ok v
    | none =>
      match splitOnce '[' rest with
      | some (name, index) =>
        let name := String.ofList name
        match parseUnsigned (trimEndBrackets index) with
        | .error e => .error (.err [s!"invalid array index in \"{expr}\"", e])
        | .ok idx =>
          match vars name with
          | none => bail s!"unknown variable: \"{name}\""
          | some base =>
            match base.getIndex idx with
            | none => bail s!"index {idx} out of bounds in \"{name}\""
            | some v => .ok v
      | none =>
        let name := String.ofList rest
        match vars name with
        | none => bail s!"unknown variable: \"{name}\""
        | some v => .ok v
  | _ => bail s!"not a variable reference: \"{expr}\""

theorem splitTemplate_length {cs before after : List Char}
    (h : splitTemplate cs = some (before, after)) : after.length < cs.length := by
  induction cs using splitTemplate.induct generalizing before with
  | case1 => simp [splitTemplate] at h
  | case2 rest =>
      rw [splitTemplate] at h
      obtain ⟨-, rfl⟩ := Prod.mk.inj (Option.some.inj h)
      simp only [List.length_cons]
      omega
  | case3 d rest hne ih =>
      rw [splitTemplate] at h
      · obtain ⟨⟨b, a⟩, hb, heq⟩ := Option.map_eq_some_iff.mp h
        obtain ⟨-, rfl⟩ := Prod.mk.inj heq
        have := ih hb
        simp only [List.length_cons]
        omega
      · exact hne

theorem splitOnce_length {c : Char} {cs before after : List Char}
    (h : splitOnce c cs = some (before, after)) : after.length < cs.length := by
  induction cs generalizing before with
  | nil => simp [splitOnce] at h
  | cons d rest ih =>
      rw [splitOnce] at h
      split at h
      · obtain ⟨-, rfl⟩ := Prod.mk.inj (Option.some.inj h)
        simp
      · obtain ⟨⟨b, a⟩, hb, heq⟩ := Option.map_eq_some_iff.mp h
        obtain ⟨-, rfl⟩ := Prod.mk.inj heq
        have := ih hb
        simp only [List.length_cons]
        omega

/-- `expand_template`: the text with every `${name}` replaced, and the names. -/
def expandTemplate (template : String) (vars : VarStore) (remaining : List Char) :
    Except Fault (List Char × List String) :=
  match _hopen : splitTemplate remaining with
  | none => .ok (remaining, [])
  | some (before, after) =>
    match _hclose : splitOnce '\x7d' after with
    | none => bail ("unclosed '$\x7b' in template string: " ++ String.quote template)
    | some (name, rest) =>
      let name := String.ofList name
      match vars name with
      | none => bail s!"unknown variable \"{name}\" in template string"
      | some v =>
        let rendered? : Except Fault String := match v with
          | .number n => .ok n.text
          | .string s => .ok s
          | other =>
            let ty := other.typeName
            bail s!"variable \"{name}\" of type {ty} cannot be interpolated into a string"
        match rendered? with
        | .error e => .error e
        | .ok rendered =>
          match expandTemplate template vars rest with
          | .error e => .error e
          | .ok (text, names) => .ok (before ++ rendered.toList ++ text, name :: names)
termination_by remaining.length
decreasing_by
  have h1 := splitTemplate_length _hopen
  have h2 := splitOnce_length _hclose
  omega

/-- The two arms of `substitute_inner` for a text. -/
def substituteText (vars : VarStore) (s : String) :
    Except Fault (Value × List (String × String)) :=
  if (splitTemplate s.toList).isSome then
    match expandTemplate s vars s.toList with
    | .error e => .error e
    | .ok (text, names) =>
      .ok (.string (String.ofList text), names.map fun name =>
        ("$\x7b" ++ name ++ "\x7d", "string"))
  else if s.toList.head? = some '$' then
    match withContext s!"resolving reference \"{s}\"" (resolveRef s vars) with
    | .error e => .error e
    | .ok v => .ok (v, [(s, v.typeName)])
  else .ok (.string s, [])

mutual

/-- `substitute_inner`: the value it leaves behind, and the references it pushes. -/
def substituteInner (vars : VarStore) : Value → Except Fault (Value × List (String × String))
  | .string s => substituteText vars s
  | .array items =>
    match substituteItems vars items with
    | .error e => .error e
    | .ok (items', refs) => .ok (.array items', refs)
  | .object fields =>
    match substituteFields vars fields with
    | .error e => .error e
    | .ok (fields', refs) => .ok (.object fields', refs)
  | .null => .ok (.null, [])
  | .bool b => .ok (.bool b, [])
  | .number n => .ok (.number n, [])

/-- The loop over an array. -/
def substituteItems (vars : VarStore) :
    List Value → Except Fault (List Value × List (String × String))
  | [] => .ok ([], [])
  | v :: rest =>
    match substituteInner vars v with
    | .error e => .error e
    | .ok (v', refs) =>
      match substituteItems vars rest with
      | .error e => .error e
      | .ok (rest', refs') => .ok (v' :: rest', refs ++ refs')

/-- The loop over an object's values. -/
def substituteFields (vars : VarStore) :
    List (String × Value) → Except Fault (List (String × Value) × List (String × String))
  | [] => .ok ([], [])
  | (key, v) :: rest =>
    match substituteInner vars v with
    | .error e => .error e
    | .ok (v', refs) =>
      match substituteFields vars rest with
      | .error e => .error e
      | .ok (rest', refs') => .ok ((key, v') :: rest', refs ++ refs')

end

/-- `substitute_in_value`. -/
def substituteInValue (v : Value) (vars : VarStore) :
    Except Fault (Value × List (String × String)) :=
  substituteInner vars v

end ConformanceHarness
