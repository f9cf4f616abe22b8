import ConformanceHarness.Miniprotocols.BlockFetchServer
import ConformanceHarness.Miniprotocols.ChainSyncServer
import ConformanceHarness.Miniprotocols.LeiosFetchServer

/-!
# Which rule answers a request

The documentation says that the first unconsumed rule matching a message fires. The three
executors keep no record of which rules are consumed: they keep one index, and look at
the rules from there on. Each is a `Script` whose strategy is `byIndex`, and the
documented executor is the same script with `byConsumption`.

Block-Fetch and LeiosFetch have one kind of request besides `Done`, so there the two
never differ. Chain-Sync has two kinds: a rule for one of them is lost once a rule behind
it has answered a request of the other.
-/

namespace ConformanceHarness

open Session
open ConformanceHarness.Lib

/-! ## The executors as scripts -/

/-- The loop of `execute_response_script`. -/
def ChainSync.script (rules : List ScriptRule) (fixture : Option FixtureChain) :
    Script ChainSyncSession Fault ScriptRule ReceivedRequest where
  rules := rules
  matchesOn request rule := request.matchesOn rule.on
  repeatable := ScriptRule.repeatable
  isLast request := request = .done
  receive := ChainSync.receive
  accept _ := pure ()
  fire pos rule request := do
    ChainSync.applyRule pos rule
    let s ← Prog.get
    let done ← ChainSync.executeSend rule.send request fixture s.state
    ChainSync.settle rule.send
    return done
  exhausted request :=
    let kind := request.kindStr
    let n := rules.length
    .err [s!"serve_chain_sync: no matching rule for \"{kind}\" (exhausted {n} rules)"]

/-- The loop of `execute_block_fetch_script`. -/
def BlockFetch.script (rules : List ScriptRule) (fixture : Option BlockFixtureChain) :
    Script BlockFetchSession Fault ScriptRule BlockFetchRequest where
  rules := rules
  matchesOn request rule := request.matchesOn rule.on
  repeatable := ScriptRule.repeatable
  isLast request := request = .clientDone
  receive := BlockFetch.receive
  accept _ := update fun c => { c with rangeRequests := c.rangeRequests + 1 }
  fire pos rule request := do
    BlockFetch.applyRule pos rule
    let s ← Prog.get
    BlockFetch.executeSend rule.send request fixture s.state
  exhausted request :=
    let kind := request.kindStr
    let n := rules.length
    .err [s!"serve_block_fetch: no matching rule for \"{kind}\" (exhausted {n} rules)"]

/-- The loop of `execute_leios_fetch_script`, for the requests among the messages. -/
def LeiosFetch.script (runner : LeiosFetchRunner) (rules : List LeiosFetchRule) :
    Script LeiosFetchSession Fault LeiosFetchRule FetchRequest where
  rules := rules
  matchesOn request rule := request.matchesOn rule.on
  repeatable := LeiosFetchRule.repeatable
  isLast request := request = .done
  receive request := if request = .done then emit LeiosFetch.doneEvent else pure ()
  accept _ := pure ()
  fire _ rule _ := do
    emit (LeiosFetch.ruleAppliedEvent rule)
    LeiosFetch.executeSendRule runner rule.send
  exhausted request :=
    let kind := request.kindStr
    let n := rules.length
    .err [s!"serve_leios_fetch: no matching rule for \"{kind}\" (exhausted {n} rules)"]

/-! ## The documented executors -/

/-- A Chain-Sync session fires the documented rules, so it is that of the documented
executor. -/
structure ChainSync.FiresDocumented (rules : List ScriptRule) (fixture : Option FixtureChain)
    (incoming : List ReceivedRequest) (s : ChainSyncSession) : Prop where
  fires : (script rules fixture).FiresAsMarked incoming s
  run : (serveLoop rules fixture 0 incoming).run s =
    ((script rules fixture).loop (script rules fixture).byConsumption [] incoming).run s

/-- The requests a Chain-Sync session answers, or fails to. -/
def ChainSync.answered (rules : List ScriptRule) (fixture : Option FixtureChain)
    (incoming : List ReceivedRequest) (s : ChainSyncSession) : List ReceivedRequest :=
  ((script rules fixture).log (script rules fixture).byIndex 0 incoming s).map Prod.fst

/-- The same for a Block-Fetch session. -/
structure BlockFetch.FiresDocumented (rules : List ScriptRule)
    (fixture : Option BlockFixtureChain) (incoming : List BlockFetchRequest)
    (s : BlockFetchSession) : Prop where
  fires : (script rules fixture).FiresAsMarked incoming s
  run : (serveLoop rules fixture 0 incoming).run s =
    ((script rules fixture).loop (script rules fixture).byConsumption [] incoming).run s

/-- The same for a LeiosFetch session. -/
structure LeiosFetch.FiresDocumented (runner : LeiosFetchRunner) (rules : List LeiosFetchRule)
    (incoming : List FetchMessage) (s : LeiosFetchSession) : Prop where
  fires : (script runner rules).FiresAsMarked (incoming.filterMap FetchMessage.request?) s
  run : (serveLoop runner rules 0 incoming).run s =
    ((script runner rules).loop (script runner rules).byConsumption []
      (incoming.filterMap FetchMessage.request?)).run s

namespace Proof

theorem nextRule_eq_firstAt (matchesOn : On → Bool) (rules : List ScriptRule) : ∀ idx : Nat,
    nextRule matchesOn idx rules = firstAt (fun _ rule => matchesOn rule.on) idx rules := by
  induction rules with
  | nil => intro idx; rfl
  | cons rule rest ih => intro idx; rw [nextRule, firstAt, ih]

/-! ## Each loop is its script's loop -/

theorem chainSync_serveLoop_eq (rules : List ScriptRule) (fixture : Option FixtureChain)
    (incoming : List ReceivedRequest) : ∀ idx : Nat,
    ChainSync.serveLoop rules fixture idx incoming =
      (ChainSync.script rules fixture).loop (ChainSync.script rules fixture).byIndex idx
        incoming := by
  induction incoming with
  | nil => intro idx; rfl
  | cons request incoming ih =>
    intro idx
    have hselect : (ChainSync.script rules fixture).byIndex.select idx request =
        nextRule request.matchesOn idx (rules.drop idx) :=
      (nextRule_eq_firstAt request.matchesOn (rules.drop idx) idx).symm
    rw [ChainSync.serveLoop]
    by_cases hdone : request = .done
    · rw [Script.loop_last (decide_eq_true hdone)]
      simp only [if_pos hdone]
      rfl
    · simp only [if_neg hdone]
      rcases hnext : nextRule request.matchesOn idx (rules.drop idx) with _ | ⟨pos, rule⟩
      · rw [Script.loop_none (decide_eq_false hdone) (hselect.trans hnext)]
        rfl
      · rw [Script.loop_some (decide_eq_false hdone) (hselect.trans hnext)]
        simp only [ChainSync.script, Prog.bind_assoc, ih]
        rfl

theorem blockFetch_serveLoop_eq (rules : List ScriptRule) (fixture : Option BlockFixtureChain)
    (incoming : List BlockFetchRequest) : ∀ idx : Nat,
    BlockFetch.serveLoop rules fixture idx incoming =
      (BlockFetch.script rules fixture).loop (BlockFetch.script rules fixture).byIndex idx
        incoming := by
  induction incoming with
  | nil => intro idx; rfl
  | cons request incoming ih =>
    intro idx
    have hselect : (BlockFetch.script rules fixture).byIndex.select idx request =
        nextRule request.matchesOn idx (rules.drop idx) :=
      (nextRule_eq_firstAt request.matchesOn (rules.drop idx) idx).symm
    rw [BlockFetch.serveLoop]
    by_cases hdone : request = .clientDone
    · rw [Script.loop_last (decide_eq_true hdone)]
      simp only [if_pos hdone]
      rfl
    · simp only [if_neg hdone]
      rcases hnext : nextRule request.matchesOn idx (rules.drop idx) with _ | ⟨pos, rule⟩
      · rw [Script.loop_none (decide_eq_false hdone) (hselect.trans hnext)]
        rfl
      · rw [Script.loop_some (decide_eq_false hdone) (hselect.trans hnext)]
        simp only [BlockFetch.script, Prog.bind_assoc, ih]
        rfl

theorem leiosFetch_serveLoop_eq (runner : LeiosFetchRunner) (rules : List LeiosFetchRule)
    (incoming : List FetchMessage) : ∀ idx : Nat,
    LeiosFetch.serveLoop runner rules idx incoming =
      (LeiosFetch.script runner rules).loop (LeiosFetch.script runner rules).byIndex idx
        (incoming.filterMap FetchMessage.request?) := by
  induction incoming with
  | nil => intro idx; rfl
  | cons message incoming ih =>
    intro idx
    rw [LeiosFetch.serveLoop]
    rcases hrequest : message.request? with _ | request
    · rw [List.filterMap_cons_none hrequest]
      exact ih idx
    · rw [List.filterMap_cons_some hrequest]
      have hselect : (LeiosFetch.script runner rules).byIndex.select idx request =
          firstAt (fun _ rule => request.matchesOn rule.on) idx (rules.drop idx) := rfl
      by_cases hdone : request = .done
      · rw [Script.loop_last (decide_eq_true hdone)]
        simp only [if_pos hdone, LeiosFetch.script]
        rfl
      · simp only [if_neg hdone]
        rcases hnext : firstAt (fun _ rule => request.matchesOn (LeiosFetchRule.on rule)) idx
          (rules.drop idx) with _ | ⟨pos, rule⟩
        · rw [Script.loop_none (decide_eq_false hdone) (hselect.trans hnext)]
          simp only [LeiosFetch.script, if_neg hdone]
          rfl
        · rw [Script.loop_some (decide_eq_false hdone) (hselect.trans hnext)]
          simp only [LeiosFetch.script, if_neg hdone, Prog.bind_assoc, ih]
          rfl

/-! ## One kind of request, or two -/

/-- The requests in a log are among those received, and none of them ends the session. -/
theorem log_requests {σ ε ρ α κ : Type} {S : Script σ ε ρ α} {st : Strategy ρ α κ}
    {requests : List α} : ∀ {k : κ} {s : σ}, ∀ r ∈ (S.log st k requests s).map Prod.fst,
      S.isLast r = false := by
  induction requests with
  | nil => intro k s r hr; exact (List.not_mem_nil hr).elim
  | cons request rest ih =>
    intro k s r hr
    rw [Script.log] at hr
    split at hr
    · exact (List.not_mem_nil hr).elim
    · split at hr
      · exact (List.not_mem_nil hr).elim
      · rename_i hlast
        have hrequest : S.isLast request = false := Bool.eq_false_iff.mpr hlast
        split at hr
        · exact (List.not_mem_nil hr).elim
        · split at hr
          · rw [List.mem_singleton.mp hr]
            exact hrequest
          · rcases List.mem_cons.mp hr with rfl | hr
            · exact hrequest
            · split at hr
              · exact ih r hr
              · exact (List.not_mem_nil hr).elim

/-- A script whose requests match the same rules fires as marked. -/
theorem firesAsMarked_of_uniform {σ ε ρ α : Type} {S : Script σ ε ρ α}
    (huniform : ∀ r r', S.isLast r = false → S.isLast r' = false →
      S.matchesOn r = S.matchesOn r') (requests : List α) (s : σ) : S.FiresAsMarked requests s := by
  rw [Script.firesAsMarked_iff]
  refine RuleList.inOrder_of_uniform fun r hr r' hr' => ?_
  exact huniform r r' (log_requests r hr) (log_requests r' hr')

theorem blockFetch_firesDocumented (rules : List ScriptRule) (fixture : Option BlockFixtureChain)
    (incoming : List BlockFetchRequest) (s : BlockFetchSession) :
    BlockFetch.FiresDocumented rules fixture incoming s := by
  have hfires : (BlockFetch.script rules fixture).FiresAsMarked incoming s := by
    refine firesAsMarked_of_uniform (fun r r' hr hr' => ?_) incoming s
    have hne : r ≠ .clientDone := of_decide_eq_false hr
    have hne' : r' ≠ .clientDone := of_decide_eq_false hr'
    funext rule
    cases r with
    | clientDone => exact absurd rfl hne
    | requestRange a b =>
      cases r' with
      | clientDone => exact absurd rfl hne'
      | requestRange a' b' => cases hon : rule.on <;> simp [BlockFetch.script,
          BlockFetchRequest.matchesOn, hon]
  exact ⟨hfires, by rw [blockFetch_serveLoop_eq]; exact hfires.run_eq⟩

theorem leiosFetch_firesDocumented (runner : LeiosFetchRunner) (rules : List LeiosFetchRule)
    (incoming : List FetchMessage) (s : LeiosFetchSession) :
    LeiosFetch.FiresDocumented runner rules incoming s := by
  have hfires : (LeiosFetch.script runner rules).FiresAsMarked
      (incoming.filterMap FetchMessage.request?) s := by
    refine firesAsMarked_of_uniform (fun r r' hr hr' => ?_) _ s
    have hne : r ≠ .done := of_decide_eq_false hr
    have hne' : r' ≠ .done := of_decide_eq_false hr'
    cases r with
    | done => exact absurd rfl hne
    | fetchBlock point =>
      cases r' with
      | done => exact absurd rfl hne'
      | fetchBlock point' => rfl
  exact ⟨hfires, by rw [leiosFetch_serveLoop_eq]; exact hfires.run_eq⟩

/-- **Which sessions fire the documented rules.** Block-Fetch and LeiosFetch sessions always
do. A Chain-Sync session does exactly if the rules for the requests it answers stand in
order. -/
theorem fires_documented_iff (rules : List ScriptRule) (fixture : Option FixtureChain)
    (incoming : List ReceivedRequest) (s : ChainSyncSession) :
    (ChainSync.FiresDocumented rules fixture incoming s ↔
      (ChainSync.script rules fixture).InOrder (ChainSync.answered rules fixture incoming s)) ∧
    (∀ rules fixture incoming s, BlockFetch.FiresDocumented rules fixture incoming s) ∧
    ∀ runner rules incoming s, LeiosFetch.FiresDocumented runner rules incoming s := by
  refine ⟨?_, blockFetch_firesDocumented, leiosFetch_firesDocumented⟩
  rw [ChainSync.answered, ← Script.firesAsMarked_iff]
  constructor
  · intro h
    exact h.fires
  · intro h
    exact ⟨h, by rw [chainSync_serveLoop_eq]; exact h.run_eq⟩

/-- A rule for each kind of request, the one for an intersection first. -/
def intersectionFirst : List ScriptRule :=
  [⟨.findIntersect, .intersectNotFound none, false⟩, ⟨.requestNext, .awaitReply 0, false⟩]

/-- A client that asks for a header first is refused an intersection, for want of a rule that
is still there. -/
theorem skipped_rule_lost :
    ((ChainSync.executeResponseScript intersectionFirst none
        [.requestNext, .findIntersect [.origin]]).run (ChainSync.session none)).1 =
      bail "serve_chain_sync: no matching rule for \"find_intersect\" (exhausted 2 rules)" ∧
    ¬ ChainSync.FiresDocumented intersectionFirst none [.requestNext, .findIntersect [.origin]]
      (ChainSync.session none) := by
  refine ⟨rfl, fun h => ?_⟩
  have hfires : [some 1, none] = [some 1, some 0] := h.fires
  exact absurd hfires (by decide)

end Proof

end ConformanceHarness
