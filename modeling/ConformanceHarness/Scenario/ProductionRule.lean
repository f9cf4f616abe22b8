import ConformanceHarness.Hex

/-!
# Production rules

`ProductionRule` and `slots_in_range` of `scenario/mod.rs`: when a peer produces
blocks as the imaginary clock advances. Slots are `u64`; `+` and `*` wrap, as in
a release build (a debug build panics at the same places).

The `while` loop of `every_n_slots_range` steps with `saturating_add`, so at
`to = u64::MAX` it never leaves `s = u64::MAX`. A call that does not return is
`none`: the loop runs on as much fuel as it could ever use, one round a slot.
-/

namespace ConformanceHarness

/-- `scenario::ProductionRule`. `usize` is 64 bits wide. -/
inductive ProductionRule where
  | none
  | everyNSlots (firstSlot interval : UInt64)
  | atSlots (slots : List UInt64)
  | forkedFromSlot (firstSlot interval forkSlot : UInt64) (forkMarker : String)
  | skipsSlots (firstSlot interval : UInt64) (skipIndices : List UInt64)
  | brokenPrevHash (firstSlot interval breakAtSlot : UInt64) (wrongHash : String)
deriving Repr, DecidableEq

/-- `u64::MAX`. -/
def u64Max : UInt64 := 18446744073709551615

/-- `u64::saturating_add`. -/
def saturatingAdd (a b : UInt64) : UInt64 :=
  if a.toNat + b.toNat < 2 ^ 64 then a + b else u64Max

/-- `while s <= to { slots.push(s); s = s.saturating_add(interval); }`. -/
def everyNSlotsLoop (interval toSlot : UInt64) : Nat → UInt64 → Option (List UInt64)
  | 0, s => if s ≤ toSlot then none else some []
  | fuel + 1, s =>
    if s ≤ toSlot then
      (everyNSlotsLoop interval toSlot fuel (saturatingAdd s interval)).map (s :: ·)
    else some []

/-- The first slot of the schedule at or after `fromSlot`. -/
def everyNSlotsStart (firstSlot interval fromSlot : UInt64) : UInt64 :=
  if firstSlot ≥ fromSlot then firstSlot
  else
    let steps := (fromSlot - firstSlot + interval - 1) / interval
    firstSlot + steps * interval

/-- `a + b`, where a debug build panics on overflow. -/
def checkedAdd (a b : UInt64) : Option UInt64 :=
  if a.toNat + b.toNat < 2 ^ 64 then some (a + b) else none

/-- `a - b`, where a debug build panics on underflow. -/
def checkedSub (a b : UInt64) : Option UInt64 :=
  if b.toNat ≤ a.toNat then some (a - b) else none

/-- `a * b`, where a debug build panics on overflow. -/
def checkedMul (a b : UInt64) : Option UInt64 :=
  if a.toNat * b.toNat < 2 ^ 64 then some (a * b) else none

/-- The arithmetic of `everyNSlotsStart` as a debug build does it: `none` where one of the four
operations leaves `u64`. The division is by an interval that is not zero. -/
def everyNSlotsStartChecked (firstSlot interval fromSlot : UInt64) : Option UInt64 :=
  if firstSlot ≥ fromSlot then some firstSlot
  else do
    let missing ← checkedSub fromSlot firstSlot
    let raised ← checkedAdd missing interval
    let top ← checkedSub raised 1
    let span ← checkedMul (top / interval) interval
    checkedAdd firstSlot span

/-- `every_n_slots_range`. -/
def everyNSlotsRange (firstSlot interval fromSlot toSlot : UInt64) : Option (List UInt64) :=
  if interval = 0 ∨ fromSlot > toSlot then some []
  else
    let start := everyNSlotsStart firstSlot interval fromSlot
    everyNSlotsLoop interval toSlot (toSlot.toNat - start.toNat + 1) start

namespace ProductionRule

/-- `kind_str`. -/
def kindStr : ProductionRule → String
  | none => "none"
  | everyNSlots .. => "every_n_slots"
  | atSlots .. => "at_slots"
  | forkedFromSlot .. => "forked_from_slot"
  | skipsSlots .. => "skips_slots"
  | brokenPrevHash .. => "broken_prev_hash"

/-- `slots_in_range`: the slots of the closed interval `[fromSlot, toSlot]` at which the rule
fires. -/
def slotsInRange (rule : ProductionRule) (fromSlot toSlot : UInt64) : Option (List UInt64) :=
  if fromSlot > toSlot then some []
  else match rule with
    | none => some []
    | everyNSlots firstSlot interval => everyNSlotsRange firstSlot interval fromSlot toSlot
    | atSlots slots => some (slots.filter fun s => s ≥ fromSlot && s ≤ toSlot)
    | forkedFromSlot firstSlot interval _ _ => everyNSlotsRange firstSlot interval fromSlot toSlot
    | brokenPrevHash firstSlot interval _ _ => everyNSlotsRange firstSlot interval fromSlot toSlot
    | skipsSlots firstSlot interval skipIndices =>
      (everyNSlotsRange firstSlot interval fromSlot toSlot).map fun slots =>
        slots.filter fun s => !skipIndices.contains ((s - firstSlot) / interval)

/-- The interval of the rules that have one. -/
def interval? : ProductionRule → Option UInt64
  | everyNSlots _ interval => some interval
  | forkedFromSlot _ interval _ _ => some interval
  | skipsSlots _ interval _ => some interval
  | brokenPrevHash _ interval _ _ => some interval
  | none => .none
  | atSlots _ => .none

end ProductionRule

/-! ## `validate_network_declaration`, the part about one rule -/

/-- The first index `i >= 1` with `xs[i] <= xs[i - 1]`, and the two values. -/
def firstNonIncreasing : Nat → List UInt64 → Option (Nat × UInt64 × UInt64)
  | i, a :: b :: rest =>
      if b ≤ a then some (i + 1, b, a) else firstNonIncreasing (i + 1) (b :: rest)
  | _, _ => none

/-- `interval == 0`. -/
def intervalErrors (pos : String) (interval : UInt64) : List String :=
  if interval = 0 then [s!"{pos}: production_rule interval must be at least 1 (got 0)"] else []

/-- `first_slot` against the network's `start_slot`. -/
def firstSlotErrors (pos : String) (firstSlot : UInt64) (suffix : String) :
    Option UInt64 → List String
  | none => []
  | some start =>
    if firstSlot < start then
      [s!"{pos}: production_rule first_slot {firstSlot} is before network start_slot {start}" ++
        suffix]
    else []

/-- The arm of `validate_network_declaration` for a peer's `production_rule`. -/
def validateProductionRule (pos : String) (startSlot : Option UInt64) :
    Option ProductionRule → List String
  | none => []
  | some .none => []
  | some (.everyNSlots firstSlot interval) =>
    intervalErrors pos interval ++
      firstSlotErrors pos firstSlot
        (" — no blocks would ever be produced (blocks only fire during time advances past start_slot)")
        startSlot
  | some (.atSlots slots) =>
    if slots.isEmpty then [s!"{pos}: production_rule at_slots slots list must be non-empty"]
    else match firstNonIncreasing 0 slots with
      | none => []
      | some (i, b, a) =>
        let p := i - 1
        [s!"{pos}: production_rule at_slots slots must be strictly increasing " ++
          s!"(slots[{i}]={b} is not greater than slots[{p}]={a})"]
  | some (.forkedFromSlot firstSlot interval forkSlot forkMarker) =>
    intervalErrors pos interval ++
      (if forkSlot < firstSlot then
        [s!"{pos}: production_rule fork_slot {forkSlot} is before first_slot {firstSlot} " ++
          s!"— no blocks would be produced before the fork"] else []) ++
      (let len := (strBytes forkMarker).length
       if len = 0 then [s!"{pos}: production_rule fork_marker must be non-empty"]
       else if len > 256 then
        [s!"{pos}: production_rule fork_marker must be at most 256 bytes (got {len} bytes)"]
       else []) ++
      firstSlotErrors pos firstSlot "" startSlot
  | some (.skipsSlots firstSlot interval skipIndices) =>
    intervalErrors pos interval ++
      (match firstNonIncreasing 0 skipIndices with
      | none => []
      | some (i, b, a) =>
        let p := i - 1
        [s!"{pos}: production_rule skip_indices must be strictly increasing " ++
          s!"(skip_indices[{i}]={b} is not greater than skip_indices[{p}]={a})"]) ++
      firstSlotErrors pos firstSlot "" startSlot
  | some (.brokenPrevHash firstSlot interval breakAtSlot wrongHash) =>
    intervalErrors pos interval ++
      (if breakAtSlot < firstSlot then
        [s!"{pos}: production_rule break_at_slot {breakAtSlot} is before first_slot {firstSlot}"]
       else []) ++
      (if (strBytes wrongHash).length ≠ 64 ∨
        (strBytes wrongHash).any (fun b => (hexDigit b).isNone) then
        let got := repr wrongHash
        [s!"{pos}: production_rule wrong_hash must be 64 lowercase hex characters (32 bytes), got {got}"]
       else []) ++
      firstSlotErrors pos firstSlot "" startSlot

/-- A rule some network declaration with this `start_slot` passes validation with. -/
def ProductionRule.Accepted (startSlot : Option UInt64) (rule : ProductionRule) : Prop :=
  ∀ pos, validateProductionRule pos startSlot (some rule) = []

end ConformanceHarness
