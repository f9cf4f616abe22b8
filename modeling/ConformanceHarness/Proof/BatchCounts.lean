import ConformanceHarness.Lib.Splits
import ConformanceHarness.Proof.SessionRules

/-!
# What a `BatchDone` reports

The event of a `BatchDone` says how many blocks its batch had. A `stream_batch` counts its
own; a `batch_done` of the script reports all blocks the session has served so far. The
two agree exactly where no block was sent before the most recent `StartBatch`.

Which blocks and batches a session sends is known from its rules, its fixture and its
requests. This is its plan, and every run follows it.
-/

namespace ConformanceHarness.Proof

open ConformanceHarness.Lib (Prog BeforeEach beforeEach_nil beforeEach_cons)
open Session

namespace BatchCounts

open BlockFetch

/-! ## Batches on the channel, and as reported -/

/-- What a message does to the batch. -/
inductive BatchMark where
  | start
  | block
  | done
deriving Repr, DecidableEq

def mark : Wire BlockFetchMessage → Option BatchMark
  | .message .startBatch => some .start
  | .message (.block _) => some .block
  | .message .batchDone => some .done
  | _ => none

/-- The number of blocks before each `BatchDone`, from the most recent `StartBatch` on, where `n`
is that of the blocks already sent. -/
def batchSizes : Nat → List BatchMark → List Nat
  | _, [] => []
  | _, .start :: rest => batchSizes 0 rest
  | n, .block :: rest => batchSizes (n + 1) rest
  | n, .done :: rest => n :: batchSizes n rest

/-- A payload that reports `n` blocks. -/
def batchPayload (n : UInt64) : Value := .object [("blocks_in_batch", .ofU64 n)]

/-- The payloads of the `BatchDone` events of a trace. -/
def reported (trace : List (Stamped ServerBfState)) : List Value :=
  (trace.filter fun e => e.event.kind = .blockFetchBatchDone).map fun e => e.event.payload

/-- **Every `BatchDone` event reports the blocks of its batch.** -/
def CountsBatches (s : BlockFetchSession) : Prop :=
  reported s.trace =
    (batchSizes 0 (s.sent.filterMap mark)).map fun n => batchPayload (UInt64.ofNat n)

/-! ## The plan of a session -/

/-- A step of a batch, and who closes it: the script, or a `stream_batch` its own. -/
inductive BatchStep where
  | start
  | block
  | batchDone
  | streamDone
deriving Repr, DecidableEq

def BatchStep.mark : BatchStep → BatchMark
  | start => .start
  | block => .block
  | batchDone => .done
  | streamDone => .done

/-- The steps of a send, and whether the session goes on. -/
def planSend (request : BlockFetchRequest) (fixture : Option BlockFixtureChain) :
    ScriptSend → List BatchStep × Bool
  | .startBatch => ([.start], true)
  | .block source => if (blockSourceBytes source).isOk then ([.block], true) else ([], false)
  | .batchDone => ([.batchDone], true)
  | .streamBatch sources =>
    match streamEntries request fixture sources with
    | .error _ => ([], false)
    | .ok none => ([], true)
    | .ok (some []) => ([], true)
    | .ok (some entries) =>
      (.start :: (List.replicate entries.length .block ++ [.streamDone]), true)
  | .noBlocks | .wait _ | .rawBytes _ => ([], true)
  | _ => ([], false)

/-- The steps of some sends, up to the first that ends the session. -/
def planSends (request : BlockFetchRequest) (fixture : Option BlockFixtureChain) :
    List ScriptSend → List BatchStep × Bool
  | [] => ([], true)
  | send :: rest =>
    match planSend request fixture send with
    | (steps, false) => (steps, false)
    | (steps, true) => (steps ++ (planSends request fixture rest).1,
        (planSends request fixture rest).2)

/-- The steps of a session, from rule `ruleIdx` on. -/
def plan (rules : List ScriptRule) (fixture : Option BlockFixtureChain) :
    Nat → List BlockFetchRequest → List BatchStep
  | _, [] => []
  | ruleIdx, request :: incoming =>
    if request = .clientDone then []
    else
      match nextRule request.matchesOn ruleIdx (rules.drop ruleIdx) with
      | none => []
      | some (pos, rule) =>
        match planSends request fixture rule.send.subSends with
        | (steps, false) => steps
        | (steps, true) =>
          steps ++ plan rules fixture (if rule.repeatable then ruleIdx else pos + 1) incoming

/-- The blocks sent before the most recent start, and since. -/
def advance : Nat × Nat → BatchStep → Nat × Nat
  | (earlier, current), .start => (earlier + current, 0)
  | (earlier, current), .block => (earlier, current + 1)
  | counts, .batchDone => counts
  | counts, .streamDone => counts

/-- The blocks sent before the most recent start of a batch. -/
def earlierBlocks (steps : List BatchStep) : Nat := (steps.foldl advance (0, 0)).1

/-! ## What the steps of a plan amount to -/

/-- What they report. -/
def reports : Nat × Nat → List BatchStep → List UInt64
  | _, [] => []
  | (earlier, current), .batchDone :: rest =>
    UInt64.ofNat (earlier + current) :: reports (earlier, current) rest
  | (earlier, current), .streamDone :: rest =>
    UInt64.ofNat current :: reports (earlier, current) rest
  | counts, .start :: rest => reports (advance counts .start) rest
  | counts, .block :: rest => reports (advance counts .block) rest

theorem reports_append (a b : List BatchStep) : ∀ counts,
    reports counts (a ++ b) = reports counts a ++ reports (a.foldl advance counts) b := by
  induction a with
  | nil => exact fun _ => rfl
  | cons step rest ih =>
    rintro ⟨earlier, current⟩
    cases step with
    | start => exact ih _
    | block => exact ih _
    | batchDone => exact congrArg _ (ih _)
    | streamDone => exact congrArg _ (ih _)

/-- All blocks are counted. -/
theorem foldl_advance_sum (steps : List BatchStep) : ∀ counts : Nat × Nat,
    (steps.foldl advance counts).1 + (steps.foldl advance counts).2 =
      counts.1 + counts.2 + steps.count .block := by
  induction steps with
  | nil => exact fun _ => rfl
  | cons step rest ih =>
    rintro ⟨earlier, current⟩
    rw [List.foldl_cons, ih]
    cases step with
    | start => simp [advance]
    | block =>
      simp [advance]
      omega
    | batchDone => simp [advance]
    | streamDone => simp [advance]

/-- **The reports are the sizes exactly if every `batch_done` of the script closes the first batch
with a block**, up to the overflow of the counter. -/
theorem reports_iff (steps : List BatchStep) : ∀ counts : Nat × Nat,
    reports counts steps = (batchSizes counts.2 (steps.map BatchStep.mark)).map UInt64.ofNat ↔
      BeforeEach .batchDone (fun before => UInt64.ofNat (before.foldl advance counts).1 = 0)
        steps := by
  induction steps with
  | nil => exact fun _ => iff_of_true rfl beforeEach_nil
  | cons step rest ih =>
    rintro ⟨earlier, current⟩
    rw [beforeEach_cons]
    cases step with
    | start =>
      rw [and_iff_right fun h => nomatch h]
      exact ih (earlier + current, 0)
    | block =>
      rw [and_iff_right fun h => nomatch h]
      exact ih (earlier, current + 1)
    | batchDone =>
      have hhead : UInt64.ofNat (earlier + current) = UInt64.ofNat current ↔
          UInt64.ofNat earlier = 0 := by
        rw [UInt64.ofNat_add]
        exact UInt64.add_eq_right
      show UInt64.ofNat (earlier + current) :: _ = UInt64.ofNat current :: _ ↔ _
      rw [List.cons.injEq, hhead, ih (earlier, current)]
      exact and_congr_left fun _ => ⟨fun h _ => h, fun h => h rfl⟩
    | streamDone =>
      rw [and_iff_right fun h => nomatch h]
      show UInt64.ofNat current :: _ = UInt64.ofNat current :: _ ↔ _
      rw [List.cons.injEq, and_iff_right rfl]
      exact ih (earlier, current)

/-! ## What follows a plan -/

/-- From `s` to `s'` the session puts on the channel and reports what `steps` amount to. -/
structure Follows (steps : List BatchStep) (s s' : BlockFetchSession) : Prop where
  sent : ∃ msgs, s'.sent = s.sent ++ msgs ∧ msgs.filterMap mark = steps.map BatchStep.mark
  served : s'.locals.blocksServed = s.locals.blocksServed + UInt64.ofNat (steps.count .block)
  /-- Whatever was sent before, so long as the session counted it. -/
  trace : ∃ events, s'.trace = s.trace ++ events ∧ ∀ counts : Nat × Nat,
    UInt64.ofNat (counts.1 + counts.2) = s.locals.blocksServed →
      reported events = (reports counts steps).map batchPayload

theorem reported_append (trace trace' : List (Stamped ServerBfState)) :
    reported (trace ++ trace') = reported trace ++ reported trace' := by
  rw [reported, List.filter_append, List.map_append]
  rfl

theorem Follows.append {a b : List BatchStep} {s t u : BlockFetchSession} (h : Follows a s t)
    (h' : Follows b t u) : Follows (a ++ b) s u := by
  obtain ⟨msgs, hsent, hmarks⟩ := h.sent
  obtain ⟨msgs', hsent', hmarks'⟩ := h'.sent
  obtain ⟨events, htrace, hreports⟩ := h.trace
  obtain ⟨events', htrace', hreports'⟩ := h'.trace
  refine ⟨⟨msgs ++ msgs', ?_, ?_⟩, ?_, events ++ events', ?_, fun counts hcounts => ?_⟩
  · rw [hsent', hsent, List.append_assoc]
  · rw [List.filterMap_append, hmarks, hmarks', List.map_append]
  · rw [h'.served, h.served, List.count_append, UInt64.ofNat_add, UInt64.add_assoc]
  · rw [htrace', htrace, List.append_assoc]
  · have hnow : UInt64.ofNat ((a.foldl advance counts).1 + (a.foldl advance counts).2) =
        t.locals.blocksServed := by
      rw [foldl_advance_sum, UInt64.ofNat_add, hcounts, h.served]
    rw [reported_append, reports_append, List.map_append, hreports counts hcounts,
      hreports' _ hnow]

/-- What sends no part of a batch and reports none. -/
theorem follows_nil {s s' : BlockFetchSession} {msgs : List (Wire BlockFetchMessage)}
    {events : List (Stamped ServerBfState)} (hsent : s'.sent = s.sent ++ msgs)
    (hmarks : msgs.filterMap mark = []) (htrace : s'.trace = s.trace ++ events)
    (hreports : reported events = []) (hserved : s'.locals.blocksServed = s.locals.blocksServed) :
    Follows [] s s' :=
  ⟨⟨msgs, hsent, hmarks⟩, hserved.trans (UInt64.add_zero _).symm,
    events, htrace, fun _ _ => hreports⟩

theorem Follows.refl (s : BlockFetchSession) : Follows [] s s :=
  follows_nil (List.append_nil _).symm rfl (List.append_nil _).symm rfl rfl

theorem sendStartBatch_follows {stateBefore : ServerBfState} (s : BlockFetchSession) :
    Follows [.start] s ((sendStartBatch stateBefore).run s).2 :=
  ⟨⟨_, rfl, rfl⟩, (UInt64.add_zero _).symm, _, rfl, fun _ _ => rfl⟩

theorem sendBlock_follows {source : BlockSource} {body : List UInt8} {cborLen : Nat}
    (s : BlockFetchSession) : Follows [.block] s ((sendBlock source body cborLen).run s).2 :=
  ⟨⟨_, rfl, rfl⟩, rfl, _, rfl, fun _ _ => rfl⟩

theorem sendBlocks_follows (entries : List (BlockSource × List UInt8)) : ∀ s : BlockFetchSession,
    ∃ s', (sendBlocks entries).run s = (.ok (), s') ∧
      Follows (List.replicate entries.length .block) s s' := by
  induction entries with
  | nil => exact fun s => ⟨s, rfl, Follows.refl s⟩
  | cons entry rest ih =>
    intro s
    obtain ⟨s', hrun, hrest⟩ := ih ((sendBlock entry.1 entry.2 entry.2.length).run s).2
    exact ⟨s', hrun, (sendBlock_follows s).append hrest⟩

theorem foldl_advance_blocks (n : Nat) : ∀ counts : Nat × Nat,
    (List.replicate n .block).foldl advance counts = (counts.1, counts.2 + n) := by
  induction n with
  | zero => exact fun _ => rfl
  | succ n ih =>
    rintro ⟨earlier, current⟩
    rw [List.replicate_succ, List.foldl_cons, ih, advance, Nat.add_right_comm]
    rfl

theorem reports_blocks (n : Nat) : ∀ counts : Nat × Nat,
    reports counts (List.replicate n .block) = [] := by
  induction n with
  | zero => exact fun _ => rfl
  | succ n ih => exact fun counts => ih (advance counts .block)

/-- The blocks of a stream are all that it reports. -/
theorem reports_stream (n : Nat) (counts : Nat × Nat) :
    reports counts (.start :: (List.replicate n .block ++ [.streamDone])) = [UInt64.ofNat n] := by
  show reports (advance counts .start) (List.replicate n .block ++ [.streamDone]) = _
  rw [reports_append, reports_blocks, foldl_advance_blocks, advance, Nat.zero_add]
  rfl

theorem sendStream_follows (stateBefore : ServerBfState) (entry : BlockSource × List UInt8)
    (rest : List (BlockSource × List UInt8)) (s : BlockFetchSession) :
    ∃ s', (sendStream stateBefore (some (entry :: rest))).run s = (.ok (), s') ∧
      Follows (.start :: (List.replicate (entry :: rest).length .block ++ [.streamDone])) s s' := by
  obtain ⟨t, hrun, hblocks⟩ :=
    sendBlocks_follows (entry :: rest) ((sendStartBatch stateBefore).run s).2
  have hopen : Follows (.start :: List.replicate (entry :: rest).length .block) s t :=
    (sendStartBatch_follows s).append hblocks
  let n := (entry :: rest).length
  refine ⟨((sendBatchDone (UInt64.ofNat n)).run t).2, ?_, ?_, ?_, ?_⟩
  · have hstart : (sendStartBatch stateBefore).run s =
        (.ok (), ((sendStartBatch stateBefore).run s).2) := rfl
    rw [sendStream, Prog.run_bind_ok hstart, Prog.run_bind_ok hrun]
    · rfl
    · intro h
      cases h
  · obtain ⟨msgs, hsent, hmarks⟩ := hopen.sent
    refine ⟨msgs ++ [.message .batchDone], ?_, ?_⟩
    · rw [← List.append_assoc, ← hsent]
      rfl
    · rw [List.filterMap_append, hmarks, ← List.cons_append, List.map_append]
      rfl
  · have hcount : (BatchStep.start :: (List.replicate n .block ++ [.streamDone])).count .block =
        (BatchStep.start :: List.replicate n .block).count .block := by
      rw [← List.cons_append, List.count_append]
      rfl
    rw [hcount]
    exact hopen.served
  · obtain ⟨events, htrace, hreports⟩ := hopen.trace
    refine ⟨events ++ [⟨batchDoneEvent (UInt64.ofNat n), t.state, .idle⟩], ?_, ?_⟩
    · rw [← List.append_assoc, ← htrace]
      rfl
    · intro counts hcounts
      have hnone : reported events = [] :=
        (hreports counts hcounts).trans
          (congrArg (List.map batchPayload) (reports_blocks n (advance counts .start)))
      rw [reported_append, hnone, reports_stream]
      rfl

/-- Run from `s`, the program follows the plan, and goes on exactly if the plan does. -/
def Keeps (planned : List BatchStep × Bool) (x : BlockFetchServer Bool) (s : BlockFetchSession) :
    Prop := Follows planned.1 s (x.run s).2 ∧ (planned.2 = true ↔ (x.run s).1 = .ok false)

theorem follows_note (send : ScriptSend) (s : BlockFetchSession) :
    Follows [] s ((noteSend send : BlockFetchServer Unit).run s).2 :=
  follows_nil (List.append_nil _).symm rfl (List.append_nil _).symm rfl rfl

theorem keeps_stopped {x : BlockFetchServer Bool} {s : BlockFetchSession} (hsame : (x.run s).2 = s)
    (hends : (x.run s).1 ≠ .ok false) : Keeps ([], false) x s := by
  refine ⟨?_, iff_of_false Bool.false_ne_true hends⟩
  rw [hsame]
  exact Follows.refl s

/-- **A single send follows its plan.** -/
theorem executeSingleSend_keeps (send : ScriptSend) (request : BlockFetchRequest)
    (fixture : Option BlockFixtureChain) (s : BlockFetchSession) :
    Keeps (planSend request fixture send) (executeSingleSend send request fixture s.state) s := by
  cases send with
  | noBlocks => exact ⟨follows_nil rfl rfl rfl rfl rfl, iff_of_true rfl rfl⟩
  | startBatch =>
    exact ⟨(follows_note .startBatch s).append (sendStartBatch_follows _), iff_of_true rfl rfl⟩
  | block source =>
    rw [executeSingleSend, planSend]
    rcases blockSourceBytes source with e | body
    · exact keeps_stopped rfl fun h => nomatch h
    · exact ⟨(follows_note (.block source) s).append (sendBlock_follows _), iff_of_true rfl rfl⟩
  | batchDone =>
    refine ⟨⟨⟨_, rfl, rfl⟩, (UInt64.add_zero _).symm, _, rfl, fun counts hcounts => ?_⟩,
      iff_of_true rfl rfl⟩
    show [batchPayload s.locals.blocksServed] = [batchPayload (UInt64.ofNat (counts.1 + counts.2))]
    rw [hcounts]
  | streamBatch sources =>
    rw [executeSingleSend, planSend]
    rcases streamEntries request fixture sources with e | _ | _ | ⟨entry, rest⟩
    · exact keeps_stopped rfl fun h => nomatch h
    · exact ⟨follows_nil rfl rfl rfl rfl rfl, iff_of_true rfl rfl⟩
    · exact ⟨follows_nil rfl rfl rfl rfl rfl, iff_of_true rfl rfl⟩
    · have hnote : (noteSend (.streamBatch sources) : BlockFetchServer Unit).run s =
          (.ok (), ((noteSend (.streamBatch sources) : BlockFetchServer Unit).run s).2) := rfl
      obtain ⟨s', hrun, hstream⟩ := sendStream_follows s.state entry rest
        ((noteSend (.streamBatch sources) : BlockFetchServer Unit).run s).2
      rw [Keeps, Prog.run_ofExcept_ok_bind, Prog.run_bind_ok hnote, Prog.run_bind_ok hrun]
      exact ⟨(follows_note _ s).append hstream, iff_of_true rfl rfl⟩
  | wait durationSecs => exact ⟨Follows.refl s, iff_of_true rfl rfl⟩
  | disconnect => exact keeps_stopped rfl fun h => nomatch h
  | rawBytes bytes => exact ⟨follows_nil rfl rfl rfl rfl rfl, iff_of_true rfl rfl⟩
  | _ => exact keeps_stopped rfl fun h => nomatch h

theorem executeSequence_keeps (request : BlockFetchRequest) (fixture : Option BlockFixtureChain)
    (sends : List ScriptSend) : ∀ s : BlockFetchSession,
    Keeps (planSends request fixture sends) (executeSequence request fixture sends) s := by
  induction sends with
  | nil => exact fun s => ⟨Follows.refl s, iff_of_true rfl rfl⟩
  | cons send rest ih =>
    intro s
    obtain ⟨hfollows, hgoes⟩ := executeSingleSend_keeps send request fixture s
    rw [Keeps, executeSequence, Prog.run_get_bind, Prog.run_bind]
    rcases hrun : (executeSingleSend send request fixture s.state).run s with ⟨r, s'⟩
    rw [hrun] at hfollows hgoes
    rcases hplan : planSend request fixture send with ⟨steps, _ | _⟩
    · rw [hplan] at hfollows hgoes
      rw [planSends, hplan]
      rcases r with e | _ | _
      · exact ⟨hfollows, hgoes⟩
      · exact absurd (hgoes.mpr rfl) Bool.false_ne_true
      · refine ⟨hfollows, iff_of_false Bool.false_ne_true ?_⟩
        intro h
        cases h
    · rw [hplan] at hfollows hgoes
      obtain rfl : r = .ok false := hgoes.mp rfl
      rw [planSends, hplan]
      exact ⟨hfollows.append (ih s').1, (ih s').2⟩

theorem planSends_single (request : BlockFetchRequest) (fixture : Option BlockFixtureChain)
    (send : ScriptSend) : planSends request fixture [send] = planSend request fixture send := by
  rw [planSends]
  rcases planSend request fixture send with ⟨steps, _ | _⟩
  · rfl
  · exact congrArg (·, true) (List.append_nil steps)

/-- A rule's send follows the plan of its sends. -/
theorem executeSend_keeps (send : ScriptSend) (request : BlockFetchRequest)
    (fixture : Option BlockFixtureChain) (s : BlockFetchSession) :
    Keeps (planSends request fixture send.subSends) (executeSend send request fixture s.state)
      s := by
  cases send with
  | sendSequence sends => exact executeSequence_keeps request fixture sends s
  | _ =>
    rw [ScriptSend.subSends, planSends_single]
    · exact executeSingleSend_keeps _ request fixture s
    · exact fun _ h => nomatch h

/-- **A session follows its plan**, whatever ends it. -/
theorem serveLoop_follows (rules : List ScriptRule) (fixture : Option BlockFixtureChain)
    (incoming : List BlockFetchRequest) : ∀ (ruleIdx : Nat) (s : BlockFetchSession),
    Follows (plan rules fixture ruleIdx incoming) s
      ((serveLoop rules fixture ruleIdx incoming).run s).2 := by
  induction incoming with
  | nil => exact fun _ s => Follows.refl s
  | cons request incoming ih =>
    intro ruleIdx s
    have hreceive : (receive request).run s = (.ok (), ((receive request).run s).2) := rfl
    have hreceived : Follows [] s ((receive request).run s).2 := by
      refine follows_nil (List.append_nil _).symm rfl rfl ?_ rfl
      cases request <;> rfl
    rw [serveLoop, plan, Prog.run_bind_ok hreceive]
    by_cases hdone : request = .clientDone
    · rw [if_pos hdone, if_pos hdone]
      exact hreceived
    rw [if_neg hdone, if_neg hdone]
    generalize ((receive request).run s).2 = s₁ at hreceived
    let counted : BlockFetchServer Unit :=
      update fun c => { c with rangeRequests := c.rangeRequests + 1 }
    have hcount : counted.run s₁ = (.ok (), (counted.run s₁).2) := rfl
    have hcounted : Follows [] s (counted.run s₁).2 := hreceived.append
      (follows_nil (List.append_nil _).symm rfl (List.append_nil _).symm rfl rfl)
    rw [Prog.run_bind_ok hcount]
    generalize (counted.run s₁).2 = s₂ at hcounted
    rcases nextRule request.matchesOn ruleIdx (rules.drop ruleIdx) with _ | ⟨pos, rule⟩
    · exact hcounted
    have happly : (applyRule pos rule).run s₂ = (.ok (), ((applyRule pos rule).run s₂).2) := rfl
    have happlied : Follows [] s ((applyRule pos rule).run s₂).2 := hcounted.append
      (follows_nil (List.append_nil _).symm rfl rfl rfl rfl)
    dsimp only
    rw [Prog.run_bind_ok happly, Prog.run_get_bind, Prog.run_bind]
    generalize ((applyRule pos rule).run s₂).2 = s₃ at happlied
    obtain ⟨hfollows, hgoes⟩ := executeSend_keeps rule.send request fixture s₃
    rcases hrun : (executeSend rule.send request fixture s₃.state).run s₃ with ⟨r, s'⟩
    rcases hplan : planSends request fixture rule.send.subSends with ⟨steps, _ | _⟩ <;>
      rw [hrun, hplan] at hfollows hgoes
    · rcases r with e | _ | _
      · exact happlied.append hfollows
      · exact absurd (hgoes.mpr rfl) Bool.false_ne_true
      · exact happlied.append hfollows
    · obtain rfl : r = .ok false := hgoes.mp rfl
      exact (happlied.append hfollows).append (ih _ s')

/-- What the session does besides its loop. -/
theorem executeBlockFetchScript_follows (rules : List ScriptRule)
    (fixture : Option BlockFixtureChain) (incoming : List BlockFetchRequest) :
    Follows (plan rules fixture 0 incoming) session
      ((executeBlockFetchScript rules fixture incoming).run session).2 := by
  let s₁ := ((emit (startedEvent rules fixture) : BlockFetchServer Unit).run session).2
  have hstart : (emit (startedEvent rules fixture)).run session = (.ok (), s₁) := rfl
  have hstarted : Follows [] session s₁ := follows_nil rfl rfl rfl rfl rfl
  have hloop := hstarted.append (serveLoop_follows rules fixture incoming 0 s₁)
  rw [executeBlockFetchScript, Prog.run_bind_ok hstart, Prog.run_bind]
  rcases hrun : (serveLoop rules fixture 0 incoming).run s₁ with ⟨_ | _, s'⟩ <;> rw [hrun] at hloop
  · exact hloop
  · have hcompleted : Follows [] s' ((emit (completedEvent
        { toBlockFetchCounters := s'.locals, exitReason := "completed" }) :
          BlockFetchServer Unit).run s').2 :=
      follows_nil (List.append_nil _).symm rfl rfl rfl rfl
    have hend := hloop.append hcompleted
    rw [List.append_nil] at hend
    exact hend

/-- **The reports of a session agree with its batches exactly if no `batch_done` of its plan comes
after blocks of an earlier batch.** -/
theorem countsBatches_iff (rules : List ScriptRule) (fixture : Option BlockFixtureChain)
    (incoming : List BlockFetchRequest) :
    CountsBatches ((executeBlockFetchScript rules fixture incoming).run session).2 ↔
      BeforeEach .batchDone (fun before => UInt64.ofNat (earlierBlocks before) = 0)
        (plan rules fixture 0 incoming) := by
  obtain ⟨⟨msgs, hsent, hmarks⟩, -, events, htrace, hreports⟩ :=
    executeBlockFetchScript_follows rules fixture incoming
  have hpayload : Function.Injective batchPayload := by
    intro n m h
    have hnumber := (Prod.mk.inj (List.cons.inj (Value.object.inj h)).1).2
    exact Number.unsigned.inj (Value.number.inj hnumber)
  have hsizes : ∀ sizes : List Nat, (sizes.map fun n => batchPayload (UInt64.ofNat n)) =
      (sizes.map UInt64.ofNat).map batchPayload := by
    intro sizes
    rw [List.map_map]
    rfl
  rw [CountsBatches, hsent, htrace]
  show reported events = ((batchSizes 0 (msgs.filterMap mark)).map fun n =>
    batchPayload (UInt64.ofNat n)) ↔ _
  rw [hreports (0, 0) rfl, hmarks, hsizes, (List.map_injective_iff.mpr hpayload).eq_iff]
  exact reports_iff _ (0, 0)

/-- Two batches of one block each, closed by the script. -/
def twoBatches : List ScriptRule :=
  [{ on := .requestRange
     send := .sendSequence [.startBatch, .block (.literal [0x80]), .batchDone, .startBatch,
      .block (.literal [0x80]), .batchDone]
     repeatable := false }]

/-- The second is reported with two blocks. -/
theorem second_batch_miscounted :
    ¬ CountsBatches ((executeBlockFetchScript twoBatches none
      [.requestRange .origin .origin]).run session).2 := by
  intro h
  have hsecond := (List.cons.inj (List.cons.inj h).2).1
  have hpayload := (Prod.mk.inj (List.cons.inj (Value.object.inj hsecond)).1).2
  exact absurd (Value.number.inj hpayload) (by decide)

end BatchCounts

end ConformanceHarness.Proof
