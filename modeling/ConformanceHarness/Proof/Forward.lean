import ConformanceHarness.Scenario.Validate
import ConformanceHarness.Proof.Clock

/-!
# The clock moves forward

`advance_to_slot` compares its target with the clock at run time. `tick_slots` adds
whatever its count is: that the count is positive is checked when the scenario is
parsed, and there a variable reference passes unseen. `fetch_add` wraps besides. So the
clock moves forward with every successful time step as long as each tick has a positive
count and its sum fits in a `u64`; any other tick leaves the clock where it was, or
earlier.
-/

namespace ConformanceHarness

open Lib

/-- The values the clock has had: the start slot, and the end of each interval handed over. -/
def RunState.clockHistory (startSlot : Option UInt64) (s : RunState) : List UInt64 :=
  startSlot.toList ++ s.handed.map Prod.snd

/-- The segments that move the clock. -/
def Segment.IsTimeStep : Segment → Prop
  | .advanceToSlot _ => True
  | .tickSlots _ => True
  | _ => False

/-- A tick has a positive count, and its sum fits. -/
def TickMoves : Segment → RunState → Prop
  | .tickSlots params, s => ∀ old count, s.currentSlot = some old → params.count = some count →
      0 < count ∧ old.toNat + count.toNat < 2 ^ 64
  | _, _ => True

/-- A run of a scenario every tick of which moves the clock. -/
def RunsWithMovingTicks (blake2b : List UInt8 → List UInt8) (steps : List StepDef)
    (s s' : RunState) : Prop :=
  ∃ rest, Reaches (fun a s s' rest => Executes blake2b a s s' rest ∧ TickMoves a s)
    (runSteps steps, s) (rest, s')

/-- The clock is later in `s'` than in `s`. -/
def MovedForward (s s' : RunState) : Prop :=
  ∃ old new, s.currentSlot = some old ∧ s'.currentSlot = some new ∧ old < new

namespace Proof

section

variable {blake2b : List UInt8 → List UInt8} {startSlot : Option UInt64} {s s' : RunState}

/-! ## One time step -/

theorem lt_add_iff {old count : UInt64} :
    old < old + count ↔ 0 < count ∧ old.toNat + count.toNat < 2 ^ 64 := by
  have hold := old.toNat_lt
  have hcount := count.toNat_lt
  have hzero : (0 : UInt64).toNat = 0 := rfl
  rw [UInt64.lt_iff_toNat_lt, UInt64.lt_iff_toNat_lt, UInt64.toNat_add]
  by_cases hfits : old.toNat + count.toNat < 2 ^ 64
  · rw [Nat.mod_eq_of_lt hfits]
    omega
  · -- the sum wraps once, and lands below where it started
    rw [Nat.mod_eq_sub_mod (by omega), Nat.mod_eq_of_lt (by omega)]
    omega

theorem applyLocked_eq {order : List String} {old new : UInt64}
    (h : applyLocked blake2b order s old new = some s') :
    s'.currentSlot = s.currentSlot ∧ s'.handed = s.handed ++ [(old, new)] := by
  obtain ⟨⟨peers', events⟩, -, rfl⟩ := Option.map_eq_some_iff.mp h
  exact ⟨rfl, rfl⟩

/-- A time step that succeeds sets the clock, and moves it forward exactly if it is no tick,
or a tick with a positive count whose sum fits. -/
theorem timeStep_forward {a : Segment} (htime : a.IsTimeStep)
    (h : Executes blake2b a s s' .done) :
    ∃ old new, s.currentSlot = some old ∧ s'.currentSlot = some new ∧
      s'.handed = s.handed ++ [(old, new)] ∧ (TickMoves a s ↔ old < new) := by
  cases a with
  | advanceToSlot params =>
      obtain ⟨order, -, h⟩ := h
      split at h
      · exact h.elim
      · exact nomatch h.2
      · rename_i s'' hok
        obtain ⟨old, new, hold, -, hlt, happlied⟩ := advanceToSlot_ok hok
        obtain ⟨hslot, hhanded⟩ := applyLocked_eq happlied
        obtain ⟨rfl, -⟩ := h
        exact ⟨old, new, hold, hslot, hhanded, iff_of_true trivial hlt⟩
  | tickSlots params =>
      obtain ⟨order, -, h⟩ := h
      split at h
      · exact h.elim
      · exact nomatch h.2
      · rename_i s'' hok
        obtain ⟨old, count, hold, hcount, happlied⟩ := tickSlots_ok hok
        obtain ⟨hslot, hhanded⟩ := applyLocked_eq happlied
        obtain ⟨rfl, -⟩ := h
        refine ⟨old, old + count, hold, hslot, hhanded, ?_⟩
        rw [lt_add_iff]
        constructor
        · intro hmoves
          exact hmoves old count hold hcount
        · intro hmoves old' count' hold' hcount'
          rw [← Option.some.inj (hold.symm.trans hold'),
            ← Option.some.inj (hcount.symm.trans hcount')]
          exact hmoves
  | _ => exact htime.elim

/-! ## A whole run -/

/-- Every value of the clock is later than those before it, and the last is the current one. -/
structure ClockIncreases (startSlot : Option UInt64) (s : RunState) : Prop where
  increasing : (s.clockHistory startSlot).Pairwise (· < ·)
  current : s.currentSlot = (s.clockHistory startSlot).getLast?

theorem clockIncreases_initial (startSlot : Option UInt64) (peers : PeerMap) (vars : VarStore) :
    ClockIncreases startSlot (RunState.initial startSlot peers vars) := by
  cases startSlot with
  | none => exact ⟨List.Pairwise.nil, rfl⟩
  | some start => exact ⟨List.pairwise_singleton _ _, rfl⟩

/-- A segment that does not move the clock leaves its history alone. -/
theorem ClockIncreases.still (hinv : ClockIncreases startSlot s)
    (hslot : s'.currentSlot = s.currentSlot) (hhanded : s'.handed = s.handed) :
    ClockIncreases startSlot s' := by
  have hhistory : s'.clockHistory startSlot = s.clockHistory startSlot := by
    rw [RunState.clockHistory, hhanded]
    rfl
  refine ⟨?_, ?_⟩
  · rw [hhistory]
    exact hinv.increasing
  · rw [hslot, hhistory]
    exact hinv.current

/-- A later value is later than every value so far. -/
theorem ClockIncreases.moved (hinv : ClockIncreases startSlot s) {old new : UInt64}
    (hold : s.currentSlot = some old) (hslot : s'.currentSlot = some new)
    (hhanded : s'.handed = s.handed ++ [(old, new)]) (hlt : old < new) :
    ClockIncreases startSlot s' := by
  have hhistory : s'.clockHistory startSlot = s.clockHistory startSlot ++ [new] := by
    rw [RunState.clockHistory, hhanded, List.map_append, ← List.append_assoc]
    rfl
  refine ⟨?_, ?_⟩
  · rw [hhistory]
    refine List.pairwise_append.mpr ⟨hinv.increasing, List.pairwise_singleton _ _, ?_⟩
    intro x hx y hy
    rw [List.mem_singleton.mp hy]
    -- the clock stands at the last value, which is the greatest
    obtain ⟨init, hinit⟩ := List.getLast?_eq_some_iff.mp (hinv.current.symm.trans hold)
    have hincreasing := hinv.increasing
    rw [hinit] at hincreasing hx
    rcases List.mem_append.mp hx with hx | hx
    · exact UInt64.lt_trans ((List.pairwise_append.mp hincreasing).2.2 x hx old
        List.mem_cons_self) hlt
    · rw [List.mem_singleton.mp hx]
      exact hlt
  · rw [hhistory, hslot, List.getLast?_concat]

/-- Preserved by every segment whose tick moves. -/
theorem clockIncreases_step {a : Segment} {rest : Code Segment}
    (h : Executes blake2b a s s' rest ∧ TickMoves a s) (hinv : ClockIncreases startSlot s) :
    ClockIncreases startSlot s' := by
  obtain ⟨hexec, hmoves⟩ := h
  have still : s' = s → ClockIncreases startSlot s' := fun heq => heq ▸ hinv
  have stepped : a.IsTimeStep → rest = .done → ClockIncreases startSlot s' := by
    intro htime hdone
    subst hdone
    obtain ⟨old, new, hold, hslot, hhanded, hiff⟩ := timeStep_forward htime hexec
    exact hinv.moved hold hslot hhanded (hiff.mp hmoves)
  cases a with
  | bookkeeping => exact still hexec.1
  | substitute step => exact still hexec.1
  | other =>
      obtain ⟨⟨vars, rfl⟩, -⟩ := hexec
      exact hinv.still rfl rfl
  | peerExtendsChain params =>
      simp only [Executes] at hexec
      split at hexec
      · exact still hexec.1
      · rename_i s'' hok
        obtain ⟨id, entry, body, ps, -, -, -, rfl⟩ := peerExtendsChain_ok hok
        rw [hexec.1]
        exact hinv.still rfl rfl
  | advanceToSlot params =>
      have hends := hexec
      obtain ⟨order, -, hends⟩ := hends
      split at hends
      · exact hends.elim
      · exact still hends.1
      · exact stepped trivial hends.2
  | tickSlots params =>
      have hends := hexec
      obtain ⟨order, -, hends⟩ := hends
      split at hends
      · exact hends.elim
      · exact still hends.1
      · exact stepped trivial hends.2

/-- **The clock moves forward with every successful time step**, in every run each tick of
which has a positive count and a sum that fits: its values increase, and so does it with the
next step. A tick without that does not move it forward. -/
theorem clock_moves_forward {steps : List StepDef} {peers : PeerMap} {vars : VarStore}
    (h : RunsWithMovingTicks blake2b steps (RunState.initial startSlot peers vars) s) :
    ClockIncreases startSlot s ∧
      ∀ (a : Segment) (s' : RunState), a.IsTimeStep → Executes blake2b a s s' .done →
        (MovedForward s s' ↔ TickMoves a s) := by
  obtain ⟨rest, hreach⟩ := h
  refine ⟨hreach.invariant (fun a s s' rest hs hi => clockIncreases_step hs hi)
    (clockIncreases_initial startSlot peers vars), fun a s' htime hexec => ?_⟩
  obtain ⟨old, new, hold, hslot, -, hiff⟩ := timeStep_forward htime hexec
  constructor
  · intro hforward
    obtain ⟨old', new', hold', hslot', hlt⟩ := hforward
    rw [hold] at hold'
    rw [hslot] at hslot'
    rw [← Option.some.inj hold', ← Option.some.inj hslot'] at hlt
    exact hiff.mpr hlt
  · intro hmoves
    exact ⟨old, new, hold, hslot, hiff.mp hmoves⟩

end

/-! ## A tick of 0 -/

/-- `tick_slots` with its count in a variable. -/
def tickVariable : StepDef := .tickSlots (.object [("count", .string "$current_slot_minus_100")])

/-- What the runner seeds in the first hundred slots after the genesis. -/
def earlyVars : VarStore :=
  VarStore.insert (fun _ => none) "current_slot_minus_100" (.number (.unsigned 0))

/-- No peer at all. -/
theorem noPeers_iterOrder : PeerMap.IterOrder (fun _ => none) [] :=
  ⟨List.nodup_nil, fun id => by simp⟩

/-- A tick of 7 moves the clock. -/
theorem clock_moves_forward_tickSeven : ∃ s : RunState, s.currentSlot = some 7 ∧
    ClockIncreases (some 0) s := by
  obtain ⟨s, hs⟩ := Option.isSome_iff_exists.mp (show (applyLocked (fun bytes => bytes) []
    (RunState.initial (some 7) (fun _ => none) fun _ => none) 0 7).isSome by rfl)
  have hruns : RunsWithMovingTicks (fun bytes => bytes) [tickSeven]
      (RunState.initial (some 0) (fun _ => none) fun _ => none) s := by
    refine oneTick_reaches rfl rfl noPeers_iterOrder (tickSlots_seven hs) trivial trivial ?_
    intro old count hold hcount
    obtain rfl := Option.some.inj hold
    obtain rfl := Option.some.inj hcount
    decide
  exact ⟨s, (applyLocked_eq hs).1, (clock_moves_forward hruns).1⟩

/-- A tick of 0 passes validation and succeeds, and the clock stays at 5. -/
theorem tick_of_zero_stays :
    validateTickSlots "step[0] (tick_slots)" tickVariable.rawParams = [] ∧
      ∀ blake2b, ∃ s', RunsTo blake2b [tickVariable]
        (RunState.initial (some 5) (fun _ => none) earlyVars) s' ∧
        s'.handed = [(5, 5)] ∧ s'.currentSlot = some 5 := by
  refine ⟨by decide, ?_⟩
  intro blake2b
  obtain ⟨s, hs⟩ := Option.isSome_iff_exists.mp (show (applyLocked blake2b []
    (RunState.initial (some 5) (fun _ => none) earlyVars) 5 5).isSome by rfl)
  have htick : tickSlots blake2b [] { (default : StepParams) with count := some 0 }
      (RunState.initial (some 5) (fun _ => none) earlyVars) = some (.ok s) := by
    have h : tickSlots blake2b [] { (default : StepParams) with count := some 0 }
        (RunState.initial (some 5) (fun _ => none) earlyVars) = (applyLocked blake2b []
          (RunState.initial (some 5) (fun _ => none) earlyVars) 5 5).map .ok := rfl
    rw [h, hs]
    rfl
  have hruns : ∃ rest, Reaches (fun a s s' rest => Executes blake2b a s s' rest ∧ True)
      (runSteps [tickVariable], RunState.initial (some 5) (fun _ => none) earlyVars) (rest, s) :=
    oneTick_reaches rfl rfl noPeers_iterOrder htick trivial trivial trivial
  obtain ⟨rest, hreach⟩ := hruns
  have happlied := applyLocked_eq hs
  exact ⟨s, ⟨rest, hreach.mono fun a s s' rest h => h.1⟩, happlied.2, happlied.1⟩

end Proof

end ConformanceHarness
