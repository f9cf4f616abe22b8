import ConformanceHarness.Scenario.Json

/-!
# Validation of the time steps

The part of `validate_step` in `scenario/mod.rs` that is about `advance_to_slot`
and `tick_slots`: the parameters as the scenario file has them, before any
variable is known.
-/

namespace ConformanceHarness

/-- A variable reference, which nothing can be said about at parse time. -/
def Value.isRef : Value → Bool
  | .string s => s.toList.head? = some '$'
  | _ => false

/-- The checks at the top of `validate_step`, for a step that is neither about a connection
nor about a peer. -/
def misplacedFields (pos : String) (rawParams : Value) : List String :=
  (if (rawParams.getField "target_address").isSome then
    [s!"{pos}: target_address is only valid on connect steps"] else []) ++
  (if (rawParams.getField "peer_id").isSome then
    [s!"{pos}: peer_id is only valid on connect, accept_handshake, " ++
      s!"emit_peer_event, and peer_extends_chain steps"] else [])

/-- `validate_step` for `StepKind::AdvanceToSlot`. A rewind is left to the run. -/
def validateAdvanceToSlot (pos : String) (rawParams : Value) : List String :=
  misplacedFields pos rawParams ++
    if (rawParams.getField "slot").isNone then [s!"{pos}: advance_to_slot requires slot"] else []

/-- `validate_step` for `StepKind::TickSlots`. -/
def validateTickSlots (pos : String) (rawParams : Value) : List String :=
  misplacedFields pos rawParams ++
    match rawParams.getField "count" with
    | none => [s!"{pos}: tick_slots requires count"]
    | some v =>
      if v.isRef then []
      else match v.asU64 with
        | some n => if n < 1 then [s!"{pos}: tick_slots: count must be at least 1"] else []
        | none => [s!"{pos}: tick_slots: count must be at least 1"]

/-- A literal count that passed is positive. -/
theorem validateTickSlots_literal {pos : String} {rawParams v : Value}
    (h : validateTickSlots pos rawParams = []) (hcount : rawParams.getField "count" = some v)
    (hliteral : v.isRef = false) : ∃ count, v.asU64 = some count ∧ 0 < count := by
  unfold validateTickSlots at h
  obtain ⟨-, h⟩ := List.append_eq_nil_iff.mp h
  rw [hcount] at h
  dsimp only at h
  rw [hliteral, if_neg Bool.false_ne_true] at h
  rcases hv : v.asU64 with _ | count <;> rw [hv] at h
  · exact nomatch h
  · refine ⟨count, rfl, ?_⟩
    rcases Nat.eq_zero_or_pos count.toNat with hzero | hpos
    · rw [show count = 0 from UInt64.toNat_inj.mp hzero] at h
      exact nomatch h
    · exact UInt64.lt_iff_toNat_lt.mpr hpos

end ConformanceHarness
