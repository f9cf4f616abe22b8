import ConformanceHarness.Proof.Custody
import ConformanceHarness.Proof.TraceEffects

/-!
# What is recorded of the end of a connection

A connection that has been removed from its map has been aborted, and one event reports its end:
it has been emitted, or is waited for, or has been dropped while it was. This is so whenever
`cleanup` drains no map before it has closed what it drained last.
-/

namespace ConformanceHarness.Concurrent

open ConformanceHarness.Lib
open ConformanceHarness.Lib.Scope (live)
open ConformanceHarness.Runner (LeafKind)

variable {S : Setting} {frame : Bool} {steps : List Loader.StepDef}

/-- The connections that have been removed. -/
def Connections.removed (c : Connections) : List Nat := c.disconnected ++ c.cleaned

/-- The connections whose end a trace reports, will report, or would have reported. -/
def TraceFile.closings (t : TraceFile) : List Nat := t.lines.filterMap Line.closes

/-- The records of the connections that have been removed. -/
structure Ledger (s : State) : Prop where
  workers : ∀ w ∈ s.trace.queue, w.worker = true → ∀ line, w.line = some line → line.closes = none
  kinds : ∀ line ∈ s.trace.lines,
    line.closes.isSome = true ↔ line.event.kind = .connectionClosed
  closings : s.conns.removed.Perm (s.conns.drained.map Prod.snd ++ s.trace.closings)
  aborted : ∀ id ∈ s.conns.removed, id ∉ s.conns.drained.map Prod.snd →
    (s.conns.connection id).Aborted

section

variable {held others l : List Action} {a : Action} {s s' : State} {rest : Prog}

/-! ## The lines -/

theorem closings_request {t : TraceFile} {line : Option Line} {worker : Bool} :
    (t.request line worker).closings.Perm (line.toList.filterMap Line.closes ++ t.closings) := by
  have hlines := (@TraceFile.lines_request t line worker).filterMap Line.closes
  rwa [List.filterMap_append] at hlines

/-- Only a `close` job reports the end of a connection. -/
theorem closes_line {job : Job} (hopen : ∀ id event, job ≠ .close id event)
    (slot : Option UInt64) : (job.line slot).toList.filterMap Line.closes = [] := by
  cases job with
  | close id event => exact absurd rfl (hopen id event)
  | _ => rfl

theorem kinds_request {t : TraceFile} {line : Option Line} {worker : Bool}
    (hkinds : ∀ line ∈ t.lines, line.closes.isSome = true ↔ line.event.kind = .connectionClosed)
    (hline : ∀ new, line = some new →
      (new.closes.isSome = true ↔ new.event.kind = .connectionClosed)) :
    ∀ line' ∈ (t.request line worker).lines,
      line'.closes.isSome = true ↔ line'.event.kind = .connectionClosed := by
  intro line' hmem
  rcases List.mem_append.mp (TraceFile.lines_request.mem_iff.mp hmem) with hmem | hmem
  · exact hline line' (Option.mem_toList.mp hmem)
  · exact hkinds line' hmem

theorem Asks.kind {job : Job} (h : Asks a s s' job) {slot : Option UInt64} {line : Line}
    (hline : job.line slot = some line) :
    line.closes.isSome = true ↔ line.event.kind = .connectionClosed := by
  cases h with
  | emits tracer event hevent _ =>
    obtain rfl := Option.some.inj hline
    exact iff_of_false (fun h => nomatch h) hevent.closing
  | closes id event hkind _ _ =>
    obtain rfl := Option.some.inj hline
    exact iff_of_true rfl hkind
  | drains _ => exact nomatch hline
  | closing _ _ _ _ => exact nomatch hline
  | advances _ _ _ _ _ _ _ =>
    obtain rfl := Option.some.inj hline
    exact iff_of_false (fun h => nomatch h) (fun h => nomatch h)
  | ticks _ _ _ _ _ _ _ =>
    obtain rfl := Option.some.inj hline
    exact iff_of_false (fun h => nomatch h) (fun h => nomatch h)

theorem mem_queue_request {t : TraceFile} {line : Option Line} {worker : Bool} {w : Waiter}
    (h : w ∈ (t.request line worker).queue) : w ∈ t.queue ∨ w = ⟨t.tickets, line, worker⟩ :=
  (List.mem_append.mp h).imp_right List.mem_singleton.mp

/-- What the lines report, and what the workers wait with, stays in order. -/
theorem TraceEffect.lines (h : TraceEffect S a s s') (hledger : Ledger s) :
    (∀ w ∈ s'.trace.queue, w.worker = true → ∀ line, w.line = some line → line.closes = none) ∧
    ∀ line ∈ s'.trace.lines, line.closes.isSome = true ↔ line.event.kind = .connectionClosed := by
  cases h with
  | same htrace _ =>
    rw [htrace]
    exact ⟨hledger.workers, hledger.kinds⟩
  | begins _ htrace _ =>
    rw [htrace]
    exact ⟨hledger.workers, hledger.kinds⟩
  | asks job hjob htrace =>
    rw [htrace]
    refine ⟨?_, kinds_request hledger.kinds fun new hnew => hjob.kind hnew⟩
    intro w hw hworker
    rcases mem_queue_request hw with hw | rfl
    · exact hledger.workers w hw hworker
    · exact absurd hworker Bool.false_ne_true
  | grants _ _ w queue written _ hqueue _ htrace _ =>
    rw [htrace, TraceFile.queue_grant, TraceFile.lines_grant hqueue]
    refine ⟨?_, hledger.kinds⟩
    intro w' hw'
    exact hledger.workers w' (hqueue ▸ List.mem_cons_of_mem w hw')

/-! ## The connections -/

/-- What is held has not been removed. -/
theorem Custody.not_removed {token : Token} (h : Custody l s) (htoken : token ∈ s.conns.inUse) :
    token.id ∉ s.conns.removed := by
  intro hmem
  have hone : s.conns.places.count token.id ≤ 1 := by
    rw [h.places.count_eq]
    exact List.nodup_iff_count_le_one.mp List.nodup_range _
  have hheld := List.count_pos_iff.mpr (List.mem_map_of_mem htoken : token.id ∈ _)
  have hremoved := List.count_pos_iff.mpr hmem
  simp only [Connections.places, Connections.removed, List.count_append] at hone hremoved
  omega

theorem Custody.next_not_removed (h : Custody l s) : s.conns.next ∉ s.conns.removed := by
  intro hmem
  refine h.next_fresh ?_
  simp only [Connections.places, Connections.removed, List.mem_append] at hmem ⊢
  exact Or.inr (Or.inr (Or.inr (Or.inr hmem)))

/-- What is done with another connection. -/
theorem aborted_update {c : Connections} {id other : Nat} {f : Connection → Connection}
    (hother : other ≠ id) (h : (c.connection other).Aborted) :
    ((c.update id f).connection other).Aborted := by
  show (Function.update c.connection id _ other).Aborted
  rwa [Function.update_of_ne hother]

theorem aborted_abort (c : Connections) (id : Nat) :
    ((c.update id .abort).connection id).Aborted := by
  show (Function.update c.connection id _ id).Aborted
  rw [Function.update_self]
  exact ⟨rfl, rfl, rfl⟩

/-- What has been removed has been aborted, or is about to be. -/
def AllAborted (c : Connections) : Prop :=
  ∀ id ∈ c.removed, id ∉ c.drained.map Prod.snd → (c.connection id).Aborted

theorem AllAborted.update {c : Connections} {id : Nat} {f : Connection → Connection}
    (h : AllAborted c) (hid : id ∉ c.removed) : AllAborted (c.update id f) := by
  intro other hother hdrained
  refine aborted_update ?_ (h other hother hdrained)
  rintro rfl
  exact hid hother

theorem Custody.held_not_removed {token : Token} {outer : List Action}
    (h : Custody (a :: (held ++ others)) s) (hheld : held = .checkedOut token :: outer) :
    token.id ∉ s.conns.removed := by
  refine h.not_removed (h.tokens.mem_iff.mp ?_)
  refine List.mem_filterMap.mpr ⟨.checkedOut token, ?_, rfl⟩
  rw [hheld]
  exact List.mem_cons_of_mem _ List.mem_cons_self

theorem Effect.aborted (h : Effect S frame steps held a s s' rest)
    (hdrain : ∀ side, a = .drainTable side → s.conns.drained = [])
    (hcustody : Custody (a :: (held ++ others)) s) (haborted : AllAborted s.conns) :
    AllAborted s'.conns := by
  have hsame : ∀ {c : Connections}, s'.conns = c → AllAborted c → AllAborted s'.conns := by
    intro c hconns hc
    rwa [hconns]
  cases h with
  | quiet _ h => exact hsame h.conns haborted
  | requests _ _ _ h => exact hsame h.conns haborted
  | grants _ _ _ _ _ _ _ _ hconns _ _ => exact hsame hconns haborted
  | opens side l conn _ _ _ _ h =>
    -- the connection opened has the next number, which is no removed one's
    refine hsame h.conns ?_
    intro id hid hdrained
    have hremoved : (s.conns.openAs side l.step conn).removed = s.conns.removed := by
      cases side <;> rfl
    have hsame : (s.conns.openAs side l.step conn).drained = s.conns.drained := by
      cases side <;> rfl
    rw [hremoved] at hid
    rw [hsame] at hdrained
    show (Function.update s.conns.connection s.conns.next conn id).Aborted
    rw [Function.update_of_ne]
    · exact haborted id hid hdrained
    · rintro rfl
      exact hcustody.next_not_removed hid
  | takes side l kind token _ htake _ _ _ =>
    -- a taken connection is out of its table but was not removed
    obtain ⟨-, -, -, hconns⟩ := Connections.take_eq_some htake
    rw [hconns]
    intro id hid hdrained
    have hremoved : id ∈ s.conns.removed := by cases side <;> exact hid
    have hkept : id ∉ s.conns.drained.map Prod.snd := by cases side <;> exact hdrained
    have hconn := haborted id hremoved hkept
    cases side <;> exact hconn
  | uses token outer f _ hheld _ h =>
    exact hsame h.conns (haborted.update (hcustody.held_not_removed hheld))
  | startsWorkers token outer version _ _ hheld _ h =>
    exact hsame h.conns (haborted.update (hcustody.held_not_removed hheld))
  | disconnects l id event conns _ hdisconnect h =>
    -- the connection removed is aborted in the same action
    obtain ⟨-, rfl⟩ := Connections.disconnect_eq_some hdisconnect
    refine hsame h.conns ?_
    intro other hother hdrained
    by_cases hid : other = id
    · subst hid
      exact aborted_abort s.conns other
    · have hremoved : other ∈ s.conns.removed := by
        simpa [Connections.removed, Connections.update, hid] using hother
      exact aborted_update hid (haborted other hremoved hdrained)
  | listens _ _ h => exact hsame h.conns haborted
  | unlistens _ _ _ _ h => exact hsame h.conns haborted
  | drains side order ha _ h =>
    -- what is drained is set aside to be closed, so it owes no abort yet
    refine hsame h.conns ?_
    intro id hid hdrained
    have hnone := hdrain side ha
    have hnew : id ∉ order.map Prod.snd := by cases side <;> exact hdrained
    have hold : id ∈ s.conns.removed := by
      have hmem : id ∈ s.conns.disconnected ++ (s.conns.cleaned ++ order.map Prod.snd) := by
        cases side <;> exact hid
      rw [← List.append_assoc] at hmem
      exact (List.mem_append.mp hmem).resolve_right hnew
    have hconn := haborted id hold (by rw [hnone]; exact List.not_mem_nil)
    cases side <;> exact hconn
  | clears _ h => exact hsame h.conns haborted
  | closesNext name id more event _ hdrained h =>
    -- the next of the drained is aborted as it leaves the list
    refine hsame h.conns ?_
    intro other hother hmore
    by_cases hid : other = id
    · subst hid
      exact aborted_abort s.conns other
    · refine aborted_update hid (haborted other hother ?_)
      rw [hdrained]
      exact fun hmem => (List.mem_cons.mp hmem).elim hid hmore

/-! ## The records -/

theorem Effect.closings (h : Effect S frame steps held a s s' rest)
    (hdrain : ∀ side, a = .drainTable side → s.conns.drained = [])
    (hclosings : s.conns.removed.Perm (s.conns.drained.map Prod.snd ++ s.trace.closings)) :
    s'.conns.removed.Perm (s'.conns.drained.map Prod.snd ++ s'.trace.closings) := by
  -- without a request neither side of the account changes
  have hgoes : ∀ {conns : Connections}, GoesOn S frame steps conns s s' rest →
      conns.removed = s.conns.removed → conns.drained = s.conns.drained →
      s'.conns.removed.Perm (s'.conns.drained.map Prod.snd ++ s'.trace.closings) := by
    intro conns h hremoved hdrained
    rwa [h.conns, h.trace, hremoved, hdrained]
  -- a request that closes nothing leaves the account as it was
  have hasks : ∀ {job : Job} {conns : Connections}, Requests S frame steps job conns s s' rest →
      (∀ id event, job ≠ .close id event) → conns.removed = s.conns.removed →
      conns.drained = s.conns.drained →
      s'.conns.removed.Perm (s'.conns.drained.map Prod.snd ++ s'.trace.closings) := by
    intro job conns h hopen hremoved hdrained
    have hrequest := @closings_request s.trace (job.line s'.net.currentSlot) false
    rw [closes_line hopen, List.nil_append] at hrequest
    rw [h.conns, h.trace, hremoved, hdrained]
    exact hclosings.trans (hrequest.symm.append_left _)
  -- a closing adds its connection to the records
  have hcloses : ∀ {id : Nat} {event : TraceEvent} {conns : Connections},
      Requests S frame steps (.close id event) conns s s' rest →
      s'.trace.closings.Perm (id :: s.trace.closings) := by
    intro id event conns h
    rw [h.trace]
    exact closings_request
  cases h with
  | quiet _ h => exact hgoes h rfl rfl
  | requests _ _ hopen h => exact hasks h hopen rfl rfl
  | grants _ _ w queue written _ hqueue _ hconns htrace _ =>
    rw [hconns, htrace, TraceFile.closings, TraceFile.lines_grant hqueue]
    exact hclosings
  | opens side l conn _ _ _ _ h =>
    refine hgoes h ?_ ?_
    · cases side <;> rfl
    · cases side <;> rfl
  | takes side l kind token _ htake htrace _ _ =>
    rw [(Connections.take_eq_some htake).2.2.2, htrace]
    cases side <;> exact hclosings
  | uses _ _ _ _ _ _ h => exact hgoes h rfl rfl
  | startsWorkers _ _ _ _ _ _ hopen h => exact hasks h hopen rfl rfl
  | disconnects l id event conns _ hdisconnect h =>
    obtain ⟨-, rfl⟩ := Connections.disconnect_eq_some hdisconnect
    refine List.Perm.trans ?_ ((hcloses h).append_left _).symm
    rw [h.conns]
    show ((s.conns.disconnected ++ [id]) ++ s.conns.cleaned).Perm _
    rw [List.append_assoc]
    exact List.perm_middle.trans ((hclosings.cons id).trans List.perm_middle.symm)
  | listens _ _ h => exact hgoes h rfl rfl
  | unlistens _ _ _ hopen h => exact hasks h hopen rfl rfl
  | drains side order ha _ h =>
    -- the drained are removed and set aside at once, on both sides
    have hnone := hdrain side ha
    rw [hnone] at hclosings
    rw [h.conns, h.trace]
    have hremoved : (s.conns.drain side order).removed =
        s.conns.removed ++ order.map Prod.snd := by
      rw [Connections.removed, Connections.removed, List.append_assoc]
      cases side <;> rfl
    have hdrained : (s.conns.drain side order).drained = order := by cases side <;> rfl
    rw [hremoved, hdrained]
    exact List.perm_append_comm.trans (hclosings.append_left _)
  | clears _ h => exact hgoes h rfl rfl
  | closesNext name id more event _ hdrained h =>
    -- the next of the drained moves from the list to the records
    refine List.Perm.trans ?_ ((hcloses h).append_left _).symm
    rw [h.conns]
    rw [hdrained] at hclosings
    exact hclosings.trans List.perm_middle.symm

/-- **What an action records.** -/
theorem exec_ledger (h : exec S held a s s' rest) (ha : Genuine S frame steps a)
    (hdrain : ∀ side, a = .drainTable side → s.conns.drained = [])
    (hcustody : Custody (a :: (held ++ others)) s) (hledger : Ledger s) : Ledger s' := by
  have heffect := exec_effect h ha
  obtain ⟨hworkers, hkinds⟩ := (exec_trace h ha).lines hledger
  exact ⟨hworkers, hkinds, heffect.closings hdrain hledger.closings,
    heffect.aborted hdrain hcustody hledger.aborted⟩

/-- What is dropped is not forgotten. -/
theorem Ledger.drop (h : Ledger s) (a : Action) : Ledger (drop a s) := by
  cases a with
  | checkedOut token =>
    -- a connection in hand goes back to its table, and nothing was removed
    have hremoved : (s.conns.putBack token).removed = s.conns.removed := by
      simp [Connections.putBack, Connections.insertAs, Connections.removed]
    have hdrained : (s.conns.putBack token).drained = s.conns.drained :=
      Connections.setTable_drained ..
    have hconn : (s.conns.putBack token).connection = s.conns.connection :=
      Connections.setTable_connection ..
    refine ⟨h.workers, h.kinds, ?_, ?_⟩
    · show (s.conns.putBack token).removed.Perm
        ((s.conns.putBack token).drained.map Prod.snd ++ s.trace.closings)
      rw [hremoved, hdrained]
      exact h.closings
    · intro id hid hnot
      show ((s.conns.putBack token).connection id).Aborted
      rw [hconn]
      exact h.aborted id (hremoved ▸ hid) (hdrained ▸ hnot)
  | waiting ticket job =>
    refine ⟨?_, ?_, ?_, h.aborted⟩
    · intro w hw
      exact h.workers w (List.mem_of_mem_eraseP hw)
    · intro line hline
      exact h.kinds line (TraceFile.lines_cut.mem_iff.mp hline)
    · exact h.closings.trans ((TraceFile.lines_cut.filterMap Line.closes).symm.append_left _)
  | _ => exact h

/-- No worker reports the end of a connection. -/
theorem Ledger.ambient (hambient : Ambient s s') (h : Ledger s) : Ledger s' := by
  cases hambient with
  | @request tracer event hown =>
    have hlines := @closings_request s.trace
      (some ⟨tracer.stamp s.net.currentSlot event, none⟩) true
    refine ⟨?_, ?_, h.closings.trans (hlines.symm.append_left _), h.aborted⟩
    · intro w hw hworker line hline
      rcases mem_queue_request hw with hw | rfl
      · exact h.workers w hw hworker line hline
      · obtain rfl := Option.some.inj hline
        rfl
    · refine kinds_request h.kinds ?_
      intro new hnew
      obtain rfl := Option.some.inj hnew
      exact iff_of_false (fun h => nomatch h) hown.unpinned.closing
  | @grant w queue written hnext _ =>
    have hlines := @TraceFile.lines_grant s.trace w queue written hnext
    refine ⟨?_, ?_, ?_, h.aborted⟩
    · intro w' hw'
      rw [TraceFile.queue_grant] at hw'
      exact h.workers w' (hnext ▸ List.mem_cons_of_mem w hw')
    · rw [hlines]
      exact h.kinds
    · rw [TraceFile.closings, hlines]
      exact h.closings
  | @cancel before after w hqueue hworker =>
    -- what stays in the queue was there before
    have hless : ∀ w' ∈ before ++ after, w' ∈ s.trace.queue := by
      intro w' hw'
      rw [hqueue]
      exact (List.sublist_cons_self w after).append_left before |>.subset hw'
    have hwaiting : ((before ++ after).filterMap Waiter.line).Sublist s.trace.waiting := by
      rw [TraceFile.waiting, hqueue]
      exact ((List.sublist_cons_self w after).append_left before).filterMap _
    have hlines : ({ s.trace with queue := before ++ after } : TraceFile).closings =
        s.trace.closings := by
      -- a worker's line closes no connection, so the records lose nothing
      have hnone : ((w.line).toList).filterMap Line.closes = [] := by
        cases hline : w.line with
        | none => rfl
        | some line =>
          have hcloses := h.workers w (hqueue ▸ List.mem_append_cons_self) hworker line hline
          simp [hcloses]
      have hcons : (w :: after).filterMap Waiter.line =
          w.line.toList ++ after.filterMap Waiter.line := by
        cases hline : w.line with
        | none => simp [hline]
        | some line => simp [hline]
      simp only [TraceFile.closings, TraceFile.lines, TraceFile.ordered, TraceFile.waiting, hqueue,
        List.filterMap_append, hcons, hnone, List.nil_append]
    refine ⟨fun w' hw' => h.workers w' (hless w' hw'), ?_, ?_, h.aborted⟩
    · intro line hline
      exact h.kinds line (((hwaiting.append_left s.trace.emitted).append_right _).subset hline)
    · rw [hlines]
      exact h.closings

end

end ConformanceHarness.Concurrent
