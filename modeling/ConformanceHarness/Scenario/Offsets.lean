import ConformanceHarness.Hex
import ConformanceHarness.Scenario.Vars

/-!
# Templates, by byte offsets

`expand_template` of `scenario/vars.rs` as the source has it: a loop that looks for the next
`"${"`, slices the text around it, and adds to what it has written. Positions count bytes, and a
slice whose end is out of range or inside a character panics.
-/

namespace ConformanceHarness.Offsets

/-- `str::len`. -/
def byteLen : List Char → Nat
  | [] => 0
  | c :: cs => c.utf8Size + byteLen cs

/-- `str::find`, for a pattern that is not empty. -/
def find (pattern : List Char) : List Char → Option Nat
  | [] => none
  | c :: rest =>
    if pattern.isPrefixOf (c :: rest) then some 0
    else (find pattern rest).map (c.utf8Size + ·)

/-- `&text[..n]`. -/
def sliceTo : Nat → List Char → Except Fault (List Char)
  | 0, _ => .ok []
  | _ + 1, [] => .error slicePanic
  | n + 1, c :: rest =>
    if c.utf8Size ≤ n + 1 then (sliceTo (n + 1 - c.utf8Size) rest).map (c :: ·)
    else .error slicePanic

/-- `&text[n..]`. -/
def sliceFrom : Nat → List Char → Except Fault (List Char)
  | 0, text => .ok text
  | _ + 1, [] => .error slicePanic
  | n + 1, c :: rest =>
    if c.utf8Size ≤ n + 1 then sliceFrom (n + 1 - c.utf8Size) rest
    else .error slicePanic

theorem sliceFrom_length_le {n : Nat} {text rest : List Char} (h : sliceFrom n text = .ok rest) :
    rest.length ≤ text.length := by
  induction text generalizing n with
  | nil =>
    cases n with
    | zero => exact Nat.le_of_eq (congrArg List.length (Except.ok.inj h).symm)
    | succ n => cases h
  | cons c text ih =>
    cases n with
    | zero => exact Nat.le_of_eq (congrArg List.length (Except.ok.inj h).symm)
    | succ n =>
      rw [sliceFrom] at h
      split at h
      · exact Nat.le_succ_of_le (ih h)
      · cases h

/-- A slice that leaves out a byte is shorter. -/
theorem sliceFrom_length_lt {n : Nat} {text rest : List Char}
    (h : sliceFrom (n + 1) text = .ok rest) : rest.length < text.length := by
  cases text with
  | nil => cases h
  | cons c text =>
    rw [sliceFrom] at h
    split at h
    · exact Nat.lt_succ_of_le (sliceFrom_length_le h)
    · cases h

/-- What a placeholder is replaced by. -/
def renderPlaceholder (vars : VarStore) (name : List Char) : Except Fault String :=
  let name := String.ofList name
  match vars name with
  | none => bail s!"unknown variable \"{name}\" in template string"
  | some (.number n) => .ok n.text
  | some (.string s) => .ok s
  | some other =>
    let ty := other.typeName
    bail s!"variable \"{name}\" of type {ty} cannot be interpolated into a string"

/-- The loop of `expand_template`: `result` and `expanded` as they stand, and what remains. -/
def expandLoop (template : String) (vars : VarStore) (result : List Char)
    (expanded : List String) (remaining : List Char) :
    Except Fault (List Char × List String) :=
  match find ['$', '\x7b'] remaining with
  | none => .ok (result ++ remaining, expanded)
  | some openAt =>
    match sliceTo openAt remaining with
    | .error e => .error e
    | .ok before =>
      match _hafter : sliceFrom (openAt + 2) remaining with
      | .error e => .error e
      | .ok after =>
        match find ['\x7d'] after with
        | none => bail ("unclosed '$\x7b' in template string: " ++ String.quote template)
        | some closeAt =>
          match sliceTo closeAt after with
          | .error e => .error e
          | .ok name =>
            match renderPlaceholder vars name with
            | .error e => .error e
            | .ok rendered =>
              match _hrest : sliceFrom (closeAt + 1) after with
              | .error e => .error e
              | .ok rest =>
                expandLoop template vars (result ++ before ++ rendered.toList)
                  (expanded ++ [String.ofList name]) rest
termination_by remaining.length
decreasing_by
  have hafter := sliceFrom_length_lt _hafter
  have hrest := sliceFrom_length_lt _hrest
  omega

/-- `expand_template`. -/
def expandTemplate (template : String) (vars : VarStore) :
    Except Fault (List Char × List String) :=
  expandLoop template vars [] [] template.toList

end ConformanceHarness.Offsets
