import ConformanceHarness.Proof.LeftOpen

/-!
# The timeline of a trace

A line is stamped with the slot at the moment its lock is asked for, the lock is granted in the
order of the requests, and the clock goes forward: so the stamps of the file go forward. A
`slot_advanced` event is asked for with the move of the clock, before anything else happens: so
these events form a chain from the start slot to the slot of the clock.
-/

namespace ConformanceHarness.Concurrent

open ConformanceHarness.Lib
open ConformanceHarness.Lib.Scope (All Finished Throughout live seq always)
open ConformanceHarness.Proof (noPeers_iterOrder plainStep)

variable {S : Setting} {frame : Bool} {steps : List Loader.StepDef}

/-! ## Stamps and moves -/

/-- The slots with which lines are stamped. -/
def stamps (lines : List Line) : List UInt64 := lines.filterMap fun line => line.event.slot

/-- The `slot_advanced` events. -/
def advances (lines : List Line) : List TraceEvent :=
  (lines.map Line.event).filter fun event => event.kind = .slotAdvanced

/-- A move of the clock. -/
structure Move where
  fromSlot : UInt64
  toSlot : UInt64
  reason : String

/-- The event that reports a move. -/
def Move.event (move : Move) : TraceEvent := slotAdvanced move.fromSlot move.toSlot move.reason

/-- Each move starts where the one before has come to. -/
def Chained : UInt64 → List Move → UInt64 → Prop
  | start, [], final => final = start
  | start, move :: moves, final => move.fromSlot = start ∧ Chained move.toSlot moves final

theorem chained_append {moves more : List Move} {start final : UInt64} :
    Chained start (moves ++ more) final ↔
      ∃ middle, Chained start moves middle ∧ Chained middle more final := by
  induction moves generalizing start with
  | nil =>
    constructor
    · exact fun h => ⟨start, rfl, h⟩
    · rintro ⟨middle, rfl, h⟩
      exact h
  | cons move moves ih =>
    constructor
    · rintro ⟨hfrom, h⟩
      obtain ⟨middle, hmoves, hmore⟩ := ih.mp h
      exact ⟨middle, ⟨hfrom, hmoves⟩, hmore⟩
    · rintro ⟨middle, ⟨hfrom, hmoves⟩, hmore⟩
      exact ⟨hfrom, ih.mpr ⟨middle, hmoves, hmore⟩⟩

section

variable {lines more : List Line} {line : Line}

theorem stamps_append : stamps (lines ++ more) = stamps lines ++ stamps more :=
  List.filterMap_append

theorem advances_append : advances (lines ++ more) = advances lines ++ advances more := by
  unfold advances
  rw [List.map_append, List.filter_append]

theorem advances_cons : advances (line :: lines) = advances [line] ++ advances lines :=
  @advances_append [line] lines

/-- A line that reports no move. -/
theorem advances_cons_other (h : line.event.kind ≠ .slotAdvanced) :
    advances (line :: lines) = advances lines :=
  List.filter_cons_of_neg (by simpa using h)

theorem advances_eq_nil (h : ∀ line ∈ lines, line.event.kind ≠ .slotAdvanced) :
    advances lines = [] := by
  refine List.filter_eq_nil_iff.mpr ?_
  intro event hevent
  obtain ⟨line, hline, rfl⟩ := List.mem_map.mp hevent
  simpa using h line hline

/-- A request with a line that reports no move leaves the queue. -/
theorem advances_eraseP (p : Waiter → Bool) (queue : List Waiter)
    (h : ∀ line ∈ ((queue.find? p).bind Waiter.line).toList, line.event.kind ≠ .slotAdvanced) :
    advances ((queue.eraseP p).filterMap Waiter.line) = advances (queue.filterMap Waiter.line) := by
  induction queue with
  | nil => rfl
  | cons w rest ih =>
    by_cases hw : p w = true
    · rw [List.find?_cons_of_pos hw] at h
      rw [List.eraseP_cons_of_pos hw]
      cases hline : w.line with
      | none => rw [List.filterMap_cons_none hline]
      | some line =>
        rw [List.filterMap_cons_some hline, advances_cons_other]
        exact h line (by simp [hline])
    · rw [List.find?_cons_of_neg hw] at h
      rw [List.eraseP_cons_of_neg hw]
      cases hline : w.line with
      | none =>
        rw [List.filterMap_cons_none hline, List.filterMap_cons_none hline]
        exact ih h
      | some line =>
        rw [List.filterMap_cons_some hline, List.filterMap_cons_some hline]
        rw [advances_cons, ih h]
        exact advances_cons.symm

end

/-! ## The invariant -/

/-- No dropped line reports a move of the clock. -/
def Unbroken (t : TraceFile) : Prop := ∀ line ∈ t.cutOff, line.event.kind ≠ .slotAdvanced

/-- The lines, in the order of their requests, follow the clock. -/
structure Timeline (start : UInt64) (s : State) : Prop where
  sorted : (stamps s.trace.ordered).Pairwise (· ≤ ·)
  bounded : ∀ slot ∈ stamps s.trace.ordered, ∃ now, s.net.currentSlot = some now ∧ slot ≤ now
  workers : ∀ w ∈ s.trace.queue, w.worker = true → ∀ line, w.line = some line →
    line.event.kind ≠ .slotAdvanced
  written : s.trace.file.Sublist s.trace.emitted
  chained : Unbroken s.trace → ∃ moves, advances s.trace.ordered = moves.map Move.event ∧
    Chained start moves (s.net.currentSlot.getD start)

/-- No `tick_slots` step takes the clock beyond a `u64`. -/
def NoOverflow (a : Action) (s : State) : Prop :=
  ∀ l old count, a = .tickSlots l → s.net.currentSlot = some old → l.params.count = some count →
    old.toNat + count.toNat < 2 ^ 64

section

variable {held : List Action} {a : Action} {s s' : State} {rest : Prog} {start : UInt64}

/-- A line is asked for, when the clock has moved or not. -/
theorem Timeline.request {line : Option Line} {worker : Bool} (h : Timeline start s)
    (htrace : s'.trace = s.trace.request line worker)
    (hclock : ∀ old, s.net.currentSlot = some old →
      ∃ now, s'.net.currentSlot = some now ∧ old ≤ now)
    (hslot : ∀ new, line = some new → new.event.slot = s'.net.currentSlot)
    (hworker : worker = true → ∀ new, line = some new → new.event.kind ≠ .slotAdvanced)
    (hmoves : ∃ moves, advances line.toList = moves.map Move.event ∧
      Chained (s.net.currentSlot.getD start) moves (s'.net.currentSlot.getD start)) :
    Timeline start s' := by
  have hordered : s'.trace.ordered = s.trace.ordered ++ line.toList := by
    rw [htrace]
    exact TraceFile.ordered_request
  -- the line is stamped with the slot of the clock after the step
  have hnew : ∀ slot ∈ stamps line.toList, s'.net.currentSlot = some slot := by
    intro slot hmem
    obtain ⟨new, hline, hstamp⟩ := List.mem_filterMap.mp hmem
    rw [← hslot new (Option.mem_toList.mp hline), hstamp]
  -- every stamp before is at most the slot before, which is at most the slot after
  have hold : ∀ slot ∈ stamps s.trace.ordered,
      ∃ now, s'.net.currentSlot = some now ∧ slot ≤ now := by
    intro slot hmem
    obtain ⟨old, hcurrent, hle⟩ := h.bounded slot hmem
    obtain ⟨now, hnow, hforward⟩ := hclock old hcurrent
    exact ⟨now, hnow, UInt64.le_trans hle hforward⟩
  -- one line is in order
  have hone : (stamps line.toList).Pairwise (· ≤ ·) := by
    cases line with
    | none => exact .nil
    | some new =>
      unfold stamps
      rw [Option.toList_some, List.filterMap_cons]
      split
      · exact .nil
      · exact List.pairwise_singleton _ _
  refine ⟨?_, ?_, ?_, ?_, ?_⟩
  · rw [hordered, stamps_append]
    refine List.pairwise_append.mpr ⟨h.sorted, hone, ?_⟩
    intro slot hmem new hmemNew
    obtain ⟨now, hnow, hle⟩ := hold slot hmem
    obtain rfl := Option.some.inj (hnow.symm.trans (hnew new hmemNew))
    exact hle
  · rw [hordered, stamps_append]
    intro slot hmem
    rcases List.mem_append.mp hmem with hmem | hmem
    · exact hold slot hmem
    · exact ⟨slot, hnew slot hmem, UInt64.le_refl slot⟩
  · rw [htrace]
    intro w hw hwWorker new hline
    rcases mem_queue_request hw with hw | rfl
    · exact h.workers w hw hwWorker new hline
    · exact hworker hwWorker new hline
  · rw [htrace]
    exact h.written
  · intro hunbroken
    have hbefore : Unbroken s.trace := by
      rw [htrace] at hunbroken
      exact hunbroken
    obtain ⟨moves, hevents, hchained⟩ := h.chained hbefore
    -- the moves of the new line start where the earlier ones have led
    obtain ⟨more, hmore, hlast⟩ := hmoves
    refine ⟨moves ++ more, ?_, chained_append.mpr ⟨_, hchained, hlast⟩⟩
    rw [hordered, advances_append, hevents, hmore, List.map_append]

/-- The lock is granted. -/
theorem Timeline.grant {w : Waiter} {queue : List Waiter} {written : Bool} (h : Timeline start s)
    (hqueue : s.trace.queue = w :: queue) (htrace : s'.trace = s.trace.grant w queue written)
    (hclock : s'.net.currentSlot = s.net.currentSlot) : Timeline start s' := by
  -- the line leaves the queue for the lines already emitted, and keeps its place
  have hordered : s'.trace.ordered = s.trace.ordered := by
    rw [htrace]
    exact TraceFile.ordered_grant hqueue
  refine ⟨?_, ?_, ?_, ?_, ?_⟩
  · rw [hordered]
    exact h.sorted
  · rw [hordered, hclock]
    exact h.bounded
  · rw [htrace, TraceFile.queue_grant]
    intro w' hw'
    exact h.workers w' (hqueue ▸ List.mem_cons_of_mem w hw')
  · rw [htrace]
    unfold TraceFile.grant
    split
    · exact h.written
    · next line hline =>
      -- a line that is not written leaves a gap in the file
      cases written with
      | true => exact h.written.append (List.Sublist.refl [line])
      | false => exact h.written.trans (List.sublist_append_left _ _)
  · rw [hordered, hclock, Unbroken, htrace, TraceFile.cutOff_grant]
    exact h.chained

/-- What does not concern the trace and the clock. -/
theorem Timeline.of_same (h : Timeline start s) (htrace : s'.trace = s.trace)
    (hclock : s'.net.currentSlot = s.net.currentSlot) : Timeline start s' := by
  refine ⟨?_, ?_, ?_, ?_, ?_⟩
  · rw [htrace]
    exact h.sorted
  · rw [htrace, hclock]
    exact h.bounded
  · rw [htrace]
    exact h.workers
  · rw [htrace]
    exact h.written
  · rw [htrace, hclock]
    exact h.chained

/-- A line that reports no move. -/
theorem moves_other {line : Option Line} (h : ∀ new, line = some new → new.event.kind ≠ .slotAdvanced)
    (hclock : s'.net.currentSlot = s.net.currentSlot) :
    ∃ moves, advances line.toList = moves.map Move.event ∧
      Chained (s.net.currentSlot.getD start) moves (s'.net.currentSlot.getD start) := by
  refine ⟨[], ?_, ?_⟩
  · exact advances_eq_nil fun new hnew => h new (Option.mem_toList.mp hnew)
  · rw [hclock]
    rfl

/-- The clock moves, and the move is reported. -/
theorem Timeline.move {move : Move} (h : Timeline start s)
    (htrace : s'.trace = s.trace.request
      ((Job.emit .opened move.event).line s'.net.currentSlot) false)
    (hold : s.net.currentSlot = some move.fromSlot) (hnew : s'.net.currentSlot = some move.toSlot)
    (hforward : move.fromSlot ≤ move.toSlot) : Timeline start s' := by
  refine h.request htrace ?_ ?_ (fun hworker => absurd hworker Bool.false_ne_true) ?_
  · intro old hcurrent
    -- the clock was at the slot the move starts from
    obtain rfl := Option.some.inj (hold.symm.trans hcurrent)
    exact ⟨_, hnew, hforward⟩
  · intro new hline
    obtain rfl := Option.some.inj hline
    exact hnew.symm
  · -- the one move of the line is the move of the clock
    refine ⟨[move], ?_, ?_⟩
    · rw [hnew]
      rfl
    · rw [hold, hnew]
      exact ⟨rfl, rfl⟩

/-- What an action asks for, next to the clock. -/
theorem TraceEffect.timeline (h : TraceEffect S a s s') (hbegin : a ≠ .begin)
    (hoverflow : NoOverflow a s) (htimeline : Timeline start s) : Timeline start s' := by
  cases h with
  | same htrace hclock => exact htimeline.of_same htrace hclock
  | begins ha _ _ => exact absurd ha hbegin
  | grants _ _ w queue written _ hqueue _ htrace hclock => exact htimeline.grant hqueue htrace hclock
  | asks job hjob htrace =>
    -- a line that reports no move, where the clock stands still
    have hsame : (∀ slot new, job.line slot = some new → new.event.slot = slot ∧
        new.event.kind ≠ .slotAdvanced) → s'.net.currentSlot = s.net.currentSlot →
        Timeline start s' := by
      intro hline hclock
      refine htimeline.request htrace ?_ (fun new hnew => (hline _ new hnew).1)
        (fun hworker => absurd hworker Bool.false_ne_true)
        (moves_other (fun new hnew => (hline _ new hnew).2) hclock)
      intro old hcurrent
      exact ⟨old, hclock.trans hcurrent, UInt64.le_refl old⟩
    cases hjob with
    | emits tracer event hevent hclock =>
      refine hsame ?_ hclock
      intro slot new hnew
      obtain rfl := Option.some.inj hnew
      exact ⟨by simp [Tracer.stamp, hevent.slot], hevent.clock⟩
    | closes id event hkind hslot hclock =>
      refine hsame ?_ hclock
      intro slot new hnew
      obtain rfl := Option.some.inj hnew
      refine ⟨by simp [Tracer.stamp, hslot], ?_⟩
      show event.kind ≠ .slotAdvanced
      rw [hkind]
      exact nofun
    | drains hclock => exact hsame (fun _ _ hnew => nomatch hnew) hclock
    | closing _ _ _ hclock => exact hsame (fun _ _ hnew => nomatch hnew) hclock
    | advances l old new _ hold hnew hlt =>
      exact @Timeline.move _ _ _ ⟨old, new, "advance_to_slot"⟩ htimeline htrace hold hnew
        (UInt64.le_of_lt hlt)
    | ticks l old count ha hcount hold hnew =>
      -- the sum does not wrap around, so the clock goes forward
      have hsum := hoverflow l old count ha hold hcount
      have hforward : old ≤ old + count := by
        rw [UInt64.le_iff_toNat_le, UInt64.toNat_add]
        omega
      exact @Timeline.move _ _ _ ⟨old, old + count, "tick_slots"⟩ htimeline htrace hold hnew hforward

/-- A request is dropped. -/
theorem Timeline.drop (h : Timeline start s) (a : Action) : Timeline start (drop a s) := by
  cases a with
  | waiting ticket job =>
    have hless : (s.trace.cut ticket).ordered.Sublist s.trace.ordered := TraceFile.ordered_cut
    refine ⟨h.sorted.sublist (hless.filterMap _), ?_, ?_, h.written, ?_⟩
    · intro slot hmem
      exact h.bounded slot ((hless.filterMap _).subset hmem)
    · intro w hw
      exact h.workers w (List.mem_of_mem_eraseP hw)
    · intro hunbroken
      -- a line that is cut counts against an unbroken trace, so none was a move
      have hbefore : Unbroken s.trace := fun line hline =>
        hunbroken line (List.mem_append_left _ hline)
      obtain ⟨moves, hevents, hchained⟩ := h.chained hbefore
      refine ⟨moves, ?_, hchained⟩
      have hcut := advances_eraseP (TraceFile.isStep ticket) s.trace.queue fun line hline =>
        hunbroken line (List.mem_append_right _ hline)
      rw [← hevents, TraceFile.ordered, TraceFile.ordered, advances_append, advances_append]
      exact congrArg (advances s.trace.emitted ++ ·) hcut
  | _ => exact h.of_same rfl rfl

/-- The workers report no move. -/
theorem Timeline.ambient (hambient : Ambient s s') (h : Timeline start s) : Timeline start s' := by
  cases hambient with
  | @request tracer event hown =>
    -- a worker stamps its line like a step, and never reports a move
    have hline : ∀ new, some (⟨tracer.stamp s.net.currentSlot event, none⟩ : Line) = some new →
        new.event.slot = s.net.currentSlot ∧ new.event.kind ≠ .slotAdvanced := by
      intro new hnew
      obtain rfl := Option.some.inj hnew
      exact ⟨by simp [Tracer.stamp, hown.unpinned.slot], hown.unpinned.clock⟩
    exact h.request rfl (fun old hcurrent => ⟨old, hcurrent, UInt64.le_refl old⟩)
      (fun new hnew => (hline new hnew).1) (fun _ new hnew => (hline new hnew).2)
      (moves_other (fun new hnew => (hline new hnew).2) rfl)
  | grant hnext _ => exact h.grant hnext rfl rfl
  | @cancel before after w hqueue hworker =>
    have hless : (before ++ after).Sublist s.trace.queue := by
      rw [hqueue]
      exact (List.sublist_cons_self w after).append_left before
    have hordered : (s.trace.emitted ++ (before ++ after).filterMap Waiter.line).Sublist
        s.trace.ordered := (hless.filterMap _).append_left _
    refine ⟨h.sorted.sublist (hordered.filterMap _), ?_, ?_, h.written, ?_⟩
    · intro slot hmem
      exact h.bounded slot ((hordered.filterMap _).subset hmem)
    · intro w' hw'
      exact h.workers w' (hless.subset hw')
    · intro hunbroken
      obtain ⟨moves, hevents, hchained⟩ := h.chained hunbroken
      refine ⟨moves, ?_, hchained⟩
      -- The line of the worker reports none.
      have hnone : advances ((w :: after).filterMap Waiter.line) =
          advances (after.filterMap Waiter.line) := by
        cases hline : w.line with
        | none => rw [List.filterMap_cons_none hline]
        | some line =>
          rw [List.filterMap_cons_some hline, advances_cons_other]
          exact h.workers w (hqueue ▸ List.mem_append_cons_self) hworker line hline
      rw [← hevents]
      simp only [TraceFile.ordered, TraceFile.waiting, hqueue, List.filterMap_append,
        advances_append, hnone]

/-! ## Runs -/

/-- `run` comes to `begin` once. -/
theorem exec_after (h : exec S held a s s' rest) (ha : Genuine S true steps a) (hbegin : a ≠ .begin) :
    rest.All fun b => Genuine S true steps b ∧ b ≠ .begin := by
  refine (exec_effect h ha).leaves.1.and ?_
  -- what a step leaves to do is a step's too, and `begin` is none
  by_cases hstep : Genuine S false steps a
  · refine (exec_effect h hstep).leaves.1.imp ?_
    rintro b hb rfl
    exact absurd hb Bool.false_ne_true
  · cases a with
    | begin => exact absurd rfl hbegin
    | initPeer peer =>
      dsimp only [exec] at h
      split at h
      · obtain ⟨-, rfl⟩ := h
        exact .failed _
      · obtain ⟨-, rfl⟩ := h
        exact .act nofun
    | complete passed failed outcome =>
      obtain ⟨ms, -, rfl⟩ := h
      exact All.always (.act nofun) .done
    | drainTable side =>
      obtain ⟨order, -, -, rfl⟩ := h
      exact .act nofun
    | clearListeners =>
      obtain ⟨-, rfl⟩ := h
      exact .done
    | closeNext =>
      dsimp only [exec] at h
      split at h
      · obtain ⟨-, rfl⟩ := h
        exact .done
      · obtain ⟨-, rfl⟩ := h
        exact All.always (.act nofun) (.act nofun)
    | waiting ticket job =>
      cases job <;> exact absurd ha hstep
    | openConnection side l =>
      cases side <;> exact absurd ha hstep
    | _ => exact absurd ha hstep

/-- **What follows `begin` keeps the timeline.** -/
theorem timeline_preserves (start : UInt64) : Preserves ((machine S).when NoOverflow)
    (fun a => Genuine S true steps a ∧ a ≠ .begin) (Timeline start) where
  exec := fun h ha htimeline =>
    ⟨(exec_trace h.2 ha.1).timeline ha.2 h.1 htimeline, exec_after h.2 ha.1 ha.2⟩
  drop := fun h => h.drop _
  ambient := fun hambient h => h.ambient hambient

/-- The clock is not set. -/
def Unset (start : UInt64) (s : State) : Prop := Timeline start s ∧ s.net.currentSlot = none

theorem unset_preserves (start : UInt64) : Preserves ((machine S).when NoOverflow)
    (fun a => Genuine S true steps a ∧ a ≠ .begin) (Unset start) where
  exec := by
    intro held a s s' rest h ha hunset
    refine ⟨⟨(exec_trace h.2 ha.1).timeline ha.2 h.1 hunset.1, ?_⟩, exec_after h.2 ha.1 ha.2⟩
    cases exec_trace h.2 ha.1 with
    | same _ hclock => exact hclock.trans hunset.2
    | begins hbegin _ _ => exact absurd hbegin ha.2
    | grants _ _ _ _ _ _ _ _ _ hclock => exact hclock.trans hunset.2
    | asks job hjob _ =>
      cases hjob with
      | emits _ _ _ hclock => exact hclock.trans hunset.2
      | closes _ _ _ _ hclock => exact hclock.trans hunset.2
      | drains hclock => exact hclock.trans hunset.2
      | closing _ _ _ hclock => exact hclock.trans hunset.2
      -- a clock that is not set does not move
      | advances _ _ _ _ hold _ _ => exact nomatch hunset.2.symm.trans hold
      | ticks _ _ _ _ _ hold _ => exact nomatch hunset.2.symm.trans hold
  drop := by
    intro a s hunset
    refine ⟨hunset.1.drop a, ?_⟩
    cases a <;> exact hunset.2
  ambient := by
    intro s s' hambient hunset
    refine ⟨hunset.1.ambient hambient, ?_⟩
    cases hambient <;> exact hunset.2

/-- The clock is set to the start slot. -/
theorem Unset.begin (h : Unset start s)
    (hstart : S.scenario.network.bind Loader.Network.startSlot = some start)
    (htrace : s'.trace = s.trace)
    (hclock : s'.net.currentSlot = S.scenario.network.bind Loader.Network.startSlot) :
    Timeline start s' := by
  obtain ⟨htimeline, hunset⟩ := h
  -- no line has been stamped with a slot before the clock was set
  have hnone : ∀ slot, slot ∉ stamps s.trace.ordered := by
    intro slot hmem
    obtain ⟨now, hnow, -⟩ := htimeline.bounded slot hmem
    exact nomatch hunset.symm.trans hnow
  refine ⟨?_, ?_, ?_, ?_, ?_⟩
  · rw [htrace]
    exact htimeline.sorted
  · rw [htrace]
    exact fun slot hmem => absurd hmem (hnone slot)
  · rw [htrace]
    exact htimeline.workers
  · rw [htrace]
    exact htimeline.written
  · intro hunbroken
    rw [htrace] at hunbroken
    obtain ⟨moves, hevents, hchained⟩ := htimeline.chained hunbroken
    refine ⟨moves, by rw [htrace, hevents], ?_⟩
    -- the moves reported so far lead from the start slot to itself
    rw [hunset] at hchained
    rw [hclock, hstart]
    exact hchained

theorem initPeers_after (peers : List Peer) : (initPeers peers).All (· ≠ .begin) := by
  induction peers with
  | nil => exact .done
  | cons peer rest ih => exact All.seq (.act nofun) ih

theorem runSteps_after {rest : List Loader.StepDef} {idx : Nat}
    (h : ∀ step ∈ rest, Proof.Reachable S.scenario.steps step) :
    (runSteps idx rest).All (· ≠ .begin) := by
  induction rest generalizing idx with
  | nil => exact .act nofun
  | cons step rest ih =>
    have hcode : (runStep idx step).All (Code S false S.scenario.steps) :=
      runStep_code (h step List.mem_cons_self)
    have hcleanup : cleanup.All (· ≠ .begin) :=
      All.seq (.act nofun) (All.seq (.act nofun) (.act nofun))
    refine .bind (hcode.imp ?_) (ih fun inner hinner => h inner (List.mem_cons_of_mem _ hinner))
      fun e => All.seq hcleanup (All.seq (.act nofun) (.failed e))
    -- the code of a step has no action of the frame
    rintro a ha rfl
    exact absurd ha.2 Bool.false_ne_true

theorem prelude_timeline
    (hstart : S.scenario.network.bind Loader.Network.startSlot = some start) :
    Throughout ((machine S).when NoOverflow) [] (Unset start) (prelude S) (Timeline start) := by
  have hstable : ((machine S).when NoOverflow).Stable (Timeline start) :=
    fun _ _ hambient h => h.ambient hambient
  have hunset : ((machine S).when NoOverflow).Stable (Unset start) :=
    fun _ _ hambient h => (@unset_preserves S [] start).ambient hambient h
  have hstarted : Throughout ((machine S).when NoOverflow) [] (Unset start)
      (emit (scenarioStarted S)) (Unset start) :=
    (@unset_preserves S [] start).throughout (.act ⟨unpinned_internal (by decide), nofun⟩)
  -- `begin` takes the invariant from the unset clock to the start slot
  have hbegin : Throughout ((machine S).when NoOverflow) [] (Unset start) (.act .begin)
      (Timeline start) := by
    refine Throughout.act hunset (fun _ h => h.1) ?_
    intro s s' rest h hexec
    obtain ⟨-, rfl, vars, rfl, -⟩ := hexec
    exact ⟨_, h.begin hstart rfl rfl, .done hstable⟩
  refine Throughout.seq hstable (fun s y hs hreach => (hstarted s y hs hreach).1) hstarted.triple
    (Throughout.seq hstable hbegin hbegin.triple ?_)
  split
  · exact .done hstable
  · next network hnetwork =>
    have hcode : (Scope.seq (emit (Runner.networkDeclared network.peers))
        (initPeers network.peers)).All (Code S true []) :=
      All.seq (emitInternal_code (by decide)) (initPeers_code hnetwork fun _ hpeer => hpeer)
    exact (timeline_preserves start).throughout ((Code.genuine hcode).and
      (All.seq (.act nofun) (initPeers_after _)))

theorem run_timeline (hstart : S.scenario.network.bind Loader.Network.startSlot = some start) :
    Throughout ((machine S).when NoOverflow) [] (Unset start) (run S) (Timeline start) := by
  have hroot : ∀ step ∈ S.scenario.steps, Proof.Reachable S.scenario.steps step :=
    fun _ hstep => Within.of_root hstep
  have hprelude := prelude_timeline hstart
  refine Throughout.seq (fun _ _ hambient h => h.ambient hambient) hprelude hprelude.triple ?_
  have hcode : (runSteps 0 S.scenario.steps).All (Code S true S.scenario.steps) :=
    runSteps_code hroot
  exact (timeline_preserves start).throughout ((Code.genuine hcode).and (runSteps_after hroot))

theorem unset_initial : Unset start .initial where
  left :=
    { sorted := .nil
      bounded := fun _ h => nomatch h
      workers := fun _ h => nomatch h
      written := .slnil
      chained := fun _ => ⟨[], rfl, rfl⟩ }
  right := rfl

/-- Where the clock has not been set, no move is reported. -/
theorem Timeline.no_moves {moves : List Move} (h : Timeline start s)
    (hevents : advances s.trace.ordered = moves.map Move.event)
    (hunset : s.net.currentSlot = none) : moves = [] := by
  refine List.eq_nil_iff_forall_not_mem.mpr ?_
  intro move hmove
  have hevent : move.event ∈ advances s.trace.ordered := by
    rw [hevents]
    exact List.mem_map_of_mem hmove
  obtain ⟨line, hline, hstamped⟩ := List.mem_map.mp (List.mem_filter.mp hevent).1
  -- a move that is reported has stamped its line with the slot it led to
  have hslot : move.toSlot ∈ stamps s.trace.ordered := by
    refine List.mem_filterMap.mpr ⟨line, hline, ?_⟩
    rw [hstamped]
    rfl
  obtain ⟨now, hnow, -⟩ := h.bounded _ hslot
  exact nomatch hunset.symm.trans hnow

end

/-- **The trace is a timeline of the clock.** The stamps of the file go forward. If every line was
written, and no line that reports a move of the clock was dropped with a branch, then these lines
form a chain from the start slot, in the order of the file; and at the end of a run the chain has
come to the slot of the clock, if the run has set it. -/
theorem trace_timeline {start : UInt64} {c : Prog} {s : State}
    (hstart : S.scenario.network.bind Loader.Network.startSlot = some start)
    (h : Scope.Reaches ((machine S).when NoOverflow) (run S, .initial) (c, s)) :
    (stamps s.trace.file).Pairwise (· ≤ ·) ∧
      (s.trace.file = s.trace.emitted → Unbroken s.trace → ∃ moves final,
        advances s.trace.file = moves.map Move.event ∧ Chained start moves final ∧
        (Finished c → s.net.currentSlot = some final ∨ s.net.currentSlot = none ∧ moves = [])) := by
  have htimeline := run_timeline hstart .initial (c, s) unset_initial h
  have hcode : (run S).All (Code S true S.scenario.steps) := run_code
  have hwaiting := (waiting_keeps.reaches h.of_when (Code.genuine hcode) (Code.fresh hcode).later
    (.refl _)).2
  refine ⟨?_, ?_⟩
  · have hwritten : s.trace.file.Sublist s.trace.ordered :=
      htimeline.written.trans (List.sublist_append_left _ _)
    exact htimeline.sorted.sublist (hwritten.filterMap _)
  · intro hfile hunbroken
    obtain ⟨moves, hevents, hchained⟩ := htimeline.chained hunbroken
    have hsplit : moves.map Move.event = advances s.trace.file ++ advances s.trace.waiting := by
      rw [← hevents, hfile]
      exact advances_append
    obtain ⟨before, after, rfl, hbefore, hafter⟩ := List.map_eq_append_iff.mp hsplit
    obtain ⟨middle, hchain, hlast⟩ := chained_append.mp hchained
    refine ⟨before, middle, hbefore.symm, hchain, ?_⟩
    intro hfinished
    -- Only workers wait, and they report no move.
    have hnone : after = [] := by
      refine List.map_eq_nil_iff.mp (hafter.trans (advances_eq_nil ?_))
      intro line hline
      obtain ⟨w, hw, hwaits⟩ := List.mem_filterMap.mp hline
      rw [hfinished.live] at hwaiting
      exact htimeline.workers w hw (hwaiting.worker hw) line hwaits
    subst hnone
    rw [List.append_nil] at hevents
    cases hclock : s.net.currentSlot with
    | none => exact Or.inr ⟨rfl, htimeline.no_moves hevents hclock⟩
    | some now =>
      rw [hclock] at hlast
      exact Or.inl (congrArg some hlast)

/-! ## A run -/

/-- A step that advances the clock to 7. -/
def advanceStep : Loader.StepDef :=
  plainStep (.leaf .advanceToSlot) [("slot", .number (.unsigned 7))]

/-- A clock that starts at 5. -/
def clockScenario : Loader.Scenario where
  name := "t"
  targetAddress := some "localhost:3001"
  network := some ⟨[], some 5⟩
  steps := [advanceStep]

/-- None of its steps ticks. -/
theorem clockScenario_noOverflow {a : Action} {s : State}
    (ha : Genuine (bareSetting clockScenario) true clockScenario.steps a) : NoOverflow a s := by
  rintro l old count rfl
  have hstep : IsStep clockScenario.steps .tickSlots l := ha
  obtain ⟨root, hroot, hruns⟩ := hstep.reachable
  obtain rfl := List.mem_singleton.mp hroot
  rcases hruns.cases_head with heq | ⟨inner, hinner, -⟩
  · have hkind := hstep.kind
    rw [← heq] at hkind
    exact nomatch hkind
  · cases hinner with
    | body hkind _ _ => exact nomatch hkind
    | branch hkind _ _ _ _ => exact nomatch hkind

/-- The run comes to its end. -/
theorem clockScenario_runs : ∃ s,
    Scope.Reaches ((machine (bareSetting clockScenario)).when NoOverflow)
      (run (bareSetting clockScenario), .initial) (.done, s) ∧ Quiet s.trace ∧
        s.net.currentSlot = some 7 := by
  have hadvance : Literal advanceStep .advanceToSlot
      { (default : StepParams) with slot := some 7 } := ⟨rfl, rfl, rfl, fun _ => rfl⟩
  have hprelude := @prelude_network_comesTo (bareSetting clockScenario) [] .initial _ _ rfl rfl
    .refl
  have hrun : ComesTo (bareSetting clockScenario) [] (run (bareSetting clockScenario)) .initial
      .done _ :=
    hprelude.bind (runSteps_comesTo (hadvance.comesTo (advance_comesTo noPeers_iterOrder rfl rfl))
      complete_comesTo)
  obtain ⟨t, ht, hreach⟩ := hrun.reaches
  have hgenuine : Preserves (machine (bareSetting clockScenario))
      (Genuine (bareSetting clockScenario) true clockScenario.steps) fun _ => True :=
    ⟨fun h ha _ => ⟨trivial, (exec_effect h ha).leaves.1⟩, fun _ => trivial, fun _ _ => trivial⟩
  exact ⟨_, hgenuine.reachesIn_when (fun _ _ ha _ => clockScenario_noOverflow ha) hreach
    (Code.genuine run_code) trivial, ht, rfl⟩

theorem trace_timeline_clock : ∃ (s : State) (moves : List Move),
    (stamps s.trace.file).Pairwise (· ≤ ·) ∧
      advances s.trace.file = moves.map Move.event ∧ Chained 5 moves 7 := by
  obtain ⟨s, hreach, hquiet, hclock⟩ := clockScenario_runs
  obtain ⟨hsorted, hchain⟩ := @trace_timeline (bareSetting clockScenario) 5 _ _ rfl hreach
  have hunbroken : Unbroken s.trace := by
    intro line hline
    rw [hquiet.cutOff] at hline
    exact nomatch hline
  obtain ⟨moves, final, hevents, hchained, hfinal⟩ := hchain hquiet.file hunbroken
  refine ⟨s, moves, hsorted, hevents, ?_⟩
  rcases hfinal .done with hfinal | ⟨hnone, -⟩
  · obtain rfl := Option.some.inj (hclock.symm.trans hfinal)
    exact hchained
  · exact nomatch hclock.symm.trans hnone

end ConformanceHarness.Concurrent
