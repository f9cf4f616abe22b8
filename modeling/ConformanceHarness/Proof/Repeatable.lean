import ConformanceHarness.Runner.Serve
import ConformanceHarness.Proof.ResolvedScript
import ConformanceHarness.Proof.RuleSelection

/-!
# Rules written with `repeatable`

The documentation has `repeatable: true` on any rule make it refire. A response as it is
deserialized has no such field, so the flag is ignored, and `rule_def_to_script` makes
every rule one that is used up. So a rule written with the flag answers one message, and
it keeps firing exactly if it is never needed again: if no message that takes it is
followed by another of its kind.
-/

namespace ConformanceHarness

open ConformanceHarness.Lib

/-- Which responses are written with `repeatable: true`. -/
def writtenRepeatable : Value → List Bool
  | .array items => items.map fun v => (v.getField "repeatable").bind Value.asBool = some true
  | _ => []

/-- The requests a Chain-Sync session answers, each with the position of the rule that fires. -/
def ChainSync.firings (rules : List ScriptRule) (fixture : Option FixtureChain)
    (incoming : List ReceivedRequest) (s : ChainSyncSession) :
    List (ReceivedRequest × Option Nat) :=
  (script rules fixture).log (script rules fixture).byIndex 0 incoming s

/-- The requests a Block-Fetch session answers, each with the position of the rule that fires. -/
def BlockFetch.firings (rules : List ScriptRule) (fixture : Option BlockFixtureChain)
    (incoming : List BlockFetchRequest) (s : BlockFetchSession) :
    List (BlockFetchRequest × Option Nat) :=
  (script rules fixture).log (script rules fixture).byIndex 0 incoming s

namespace Proof

/-- The rules of an explicit script are all used up, and there is one for each response. -/
theorem convertRules_used {step : String} {cs : Option FixtureChain}
    {bf : Option BlockFixtureChain} {defs : List ResponseRuleDef} : ∀ {i : Nat}
    {rules : List ScriptRule}, convertRules step cs bf i defs = .ok rules →
      rules.length = defs.length ∧ ∀ rule ∈ rules, rule.repeatable = false := by
  induction defs with
  | nil =>
    intro i rules h
    obtain rfl := Except.ok.inj h
    exact ⟨rfl, fun rule hrule => (List.not_mem_nil hrule).elim⟩
  | cons d rest ih =>
    intro i rules h
    obtain ⟨send, others, rfl, -, hothers⟩ := convertRules_cons h
    obtain ⟨hlength, hused⟩ := ih hothers
    refine ⟨by rw [List.length_cons, hlength, List.length_cons], fun rule hrule => ?_⟩
    rcases List.mem_cons.mp hrule with rfl | hrule
    · rfl
    · exact hused rule hrule

theorem length_of_mapM {α β : Type} {f : α → Option β} {l : List α} : ∀ {l' : List β},
    l.mapM f = some l' → l'.length = l.length := by
  induction l with
  | nil => intro l' h; obtain rfl := Option.some.inj h; rfl
  | cons a rest ih =>
    intro l' h
    rw [List.mapM_cons] at h
    obtain ⟨b, -, h⟩ := Option.bind_eq_some_iff.mp h
    obtain ⟨rest', hrest, h⟩ := Option.bind_eq_some_iff.mp h
    obtain rfl := Option.some.inj h
    rw [List.length_cons, ih hrest, List.length_cons]

theorem explicitScript_used {step : String} {cs : Option FixtureChain}
    {bf : Option BlockFixtureChain} {responses : Value} {rules : List ScriptRule}
    (h : explicitScript step cs bf responses = .ok rules) :
    (writtenRepeatable responses).length = rules.length ∧
      ∀ rule ∈ rules, rule.repeatable = false := by
  rw [explicitScript] at h
  rcases hdefs : ruleDefsFromValue responses with _ | defs <;> rw [hdefs] at h
  · cases h
  · obtain ⟨hlength, hused⟩ := convertRules_used h
    refine ⟨?_, hused⟩
    cases responses with
    | array items =>
      rw [writtenRepeatable, List.length_map, hlength, length_of_mapM hdefs]
    | _ => cases hdefs

/-- **A rule written with `repeatable: true` keeps firing exactly if it is not needed again**:
if no message that takes it, the list being taken from the top, is followed by another of its
kind. -/
theorem written_repeatable_iff (responses : Value) :
    (∀ fixture awaitSecs rules incoming s,
      ServeChainSync.script fixture awaitSecs (some responses) = .ok rules →
      (RuleList.KeepsFiring ReceivedRequest.kindStr (writtenRepeatable responses)
          (ChainSync.firings rules fixture incoming s) ↔
        (ChainSync.script rules fixture).NeverAgain ReceivedRequest.kindStr
          (rules.zip (writtenRepeatable responses))
          ((ChainSync.firings rules fixture incoming s).map Prod.fst))) ∧
    ∀ fixture noBlocksDefault rules incoming s,
      ServeBlockFetch.script fixture noBlocksDefault (some responses) = .ok rules →
      (RuleList.KeepsFiring BlockFetchRequest.kindStr (writtenRepeatable responses)
          (BlockFetch.firings rules fixture incoming s) ↔
        (BlockFetch.script rules fixture).NeverAgain BlockFetchRequest.kindStr
          (rules.zip (writtenRepeatable responses))
          ((BlockFetch.firings rules fixture incoming s).map Prod.fst)) := by
  constructor
  · intro fixture awaitSecs rules incoming s h
    obtain ⟨hlength, hused⟩ := explicitScript_used h
    exact RuleList.keepsFiring_iff (R :=
      (ChainSync.script rules fixture).toRuleList) hused hlength _
      (Script.log_choices _ incoming 0 s)
  · intro fixture noBlocksDefault rules incoming s h
    obtain ⟨hlength, hused⟩ := explicitScript_used h
    exact RuleList.keepsFiring_iff (R :=
      (BlockFetch.script rules fixture).toRuleList) hused hlength _
      (Script.log_choices _ incoming 0 s)

/-- One response, to every range request. -/
def alwaysNoBlocks : Value :=
  .array [.object [("on", .string "request_range"), ("repeatable", .bool true),
    ("send", .object [("kind", .string "no_blocks")])]]

/-- The rule it is made into. -/
def noBlocksOnce : List ScriptRule := [⟨.requestRange, .noBlocks, false⟩]

/-- One range request is answered. -/
theorem written_repeatable_once :
    RuleList.KeepsFiring BlockFetchRequest.kindStr (writtenRepeatable alwaysNoBlocks)
      (BlockFetch.firings noBlocksOnce none [.requestRange .origin .origin]
        BlockFetch.session) := by
  have hscript : ServeBlockFetch.script none none (some alwaysNoBlocks) = .ok noBlocksOnce := rfl
  refine ((written_repeatable_iff alwaysNoBlocks).2 none none noBlocksOnce
    [.requestRange .origin .origin] BlockFetch.session hscript).mpr ?_
  exact ⟨fun _ later hlater => (List.not_mem_nil hlater).elim, trivial⟩

/-- The second one ends the session with an error. -/
theorem written_repeatable_ignored :
    ServeBlockFetch.script none none (some alwaysNoBlocks) = .ok noBlocksOnce ∧
    ((BlockFetch.executeBlockFetchScript noBlocksOnce none
        [.requestRange .origin .origin, .requestRange .origin .origin]).run BlockFetch.session).1 =
      bail "serve_block_fetch: no matching rule for \"request_range\" (exhausted 1 rules)" ∧
    ¬ RuleList.KeepsFiring BlockFetchRequest.kindStr (writtenRepeatable alwaysNoBlocks)
      (BlockFetch.firings noBlocksOnce none
        [.requestRange .origin .origin, .requestRange .origin .origin] BlockFetch.session) := by
  refine ⟨rfl, rfl, fun h => ?_⟩
  have hfirings : BlockFetch.firings noBlocksOnce none
      [.requestRange .origin .origin, .requestRange .origin .origin] BlockFetch.session =
      [(.requestRange .origin .origin, some 0), (.requestRange .origin .origin, none)] := rfl
  rw [hfirings, RuleList.KeepsFiring, List.pairwise_cons] at h
  cases h.1 _ List.mem_cons_self 0 rfl rfl rfl

end Proof

end ConformanceHarness
