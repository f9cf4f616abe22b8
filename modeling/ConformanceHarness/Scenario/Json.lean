import ConformanceHarness.Base

/-!
# JSON values, and reading them

`serde_json::Value`, with the readers that `#[derive(Deserialize)]` makes of a
field's type. An object is a map, so its keys are distinct; the list here is
that map in key order. A number is an unsigned or a negative integer, or a
float, of which only the printed text matters.

What `serde` says when a value has the wrong shape is not modelled: a reader
answers `none`, and the caller supplies the context the harness adds.
-/

namespace ConformanceHarness

/-- `serde_json::Number`. -/
inductive Number where
  | unsigned (v : UInt64)
  /-- `-(n + 1)`. -/
  | negative (n : UInt64)
  | float (text : String)
deriving Repr, DecidableEq

/-- `Number`'s `to_string`. -/
def Number.text : Number → String
  | .unsigned v => s!"{v}"
  | .negative n => let m := n.toNat + 1; s!"-{m}"
  | .float text => text

/-- `serde_json::Value`. -/
inductive Value where
  | null
  | bool (b : Bool)
  | number (n : Number)
  | string (s : String)
  | array (items : List Value)
  | object (fields : List (String × Value))
deriving Repr

namespace Value

/-- `json_type_name`. -/
def typeName : Value → String
  | null => "null"
  | bool _ => "bool"
  | number _ => "number"
  | string _ => "string"
  | array _ => "array"
  | object _ => "object"

/-- `Value::get` with a key. -/
def getField (key : String) : Value → Option Value
  | object fields => fields.lookup key
  | _ => none

/-- `Value::get` with an index. -/
def getIndex (i : Nat) : Value → Option Value
  | array items => items[i]?
  | _ => none

/-! ## Readers -/

/-- `u64`, and `usize`. -/
def asU64 : Value → Option UInt64
  | number (.unsigned v) => some v
  | _ => none

/-- `u8`. -/
def asU8 (v : Value) : Option UInt8 :=
  match v.asU64 with
  | some n => if n ≤ 255 then some n.toUInt8 else none
  | none => none

/-- `String`. -/
def asString : Value → Option String
  | string s => some s
  | _ => none

/-- `bool`. -/
def asBool : Value → Option Bool
  | bool b => some b
  | _ => none

/-- `Vec<T>`. -/
def asVec {α : Type} (read : Value → Option α) : Value → Option (List α)
  | array items => items.mapM read
  | _ => none

/-- A field of type `Option<T>`: absent and `null` both read as `None`. -/
def optional {α : Type} (read : Value → Option α) : Option Value → Option (Option α)
  | none => some none
  | some null => some none
  | some v => (read v).map some

/-- A field that must be there. -/
def required {α : Type} (read : Value → Option α) : Option Value → Option α
  | none => none
  | some v => read v

/-- A field with `#[serde(default)]`. -/
def defaulted {α : Type} (read : Value → Option α) (default : α) : Option Value → Option α
  | none => some default
  | some v => read v

/-- A struct with these fields: an object, or an array in field order. The last
`defaults` fields have `#[serde(default)]`; an array may leave them out. -/
def asStruct (names : List String) (defaults : Nat) : Value → Option (String → Option Value)
  | object fields => some fun key => fields.lookup key
  | array items =>
    if items.length ≤ names.length ∧ names.length ≤ items.length + defaults then
      some fun key => (names.zip items).lookup key
    else none
  | _ => none

end Value

end ConformanceHarness
