import ConformanceHarness.Proof.Forward
import ConformanceHarness.Proof.StepEffects

/-!
# What an action can do to the trace and the clock

One inversion lemma for the lines that are asked for: what an event reports, who stamps it, and
how the clock stands to it. Apart from the two steps that move the clock, every event that
is emitted through a tracer leaves the stamping to it.
-/

namespace ConformanceHarness.Concurrent

open ConformanceHarness.Lib (Keeps)
open ConformanceHarness.Lib.Scope (All live seq always)
open ConformanceHarness.Proof
open ConformanceHarness.Runner (LeafKind RunError)

variable {S : Setting} {frame : Bool} {steps : List Loader.StepDef}

/-! ## The lines, in order -/

namespace TraceFile

/-- The lines that have been written and those that are waited for, in the order of the requests. -/
def ordered (t : TraceFile) : List Line := t.emitted ++ t.waiting

/-- Those, and the lines whose requests were dropped. -/
def lines (t : TraceFile) : List Line := t.ordered ++ t.cutOff

variable {t : TraceFile} {line : Option Line} {worker : Bool} {w : Waiter} {queue : List Waiter}
  {written : Bool} {ticket : Nat}

theorem ordered_request : (t.request line worker).ordered = t.ordered ++ line.toList := by
  unfold ordered waiting request
  rw [List.filterMap_append, List.append_assoc]
  cases line <;> rfl

theorem lines_request : (t.request line worker).lines.Perm (line.toList ++ t.lines) := by
  unfold lines
  rw [ordered_request, List.append_assoc, ← List.append_assoc]
  exact (List.perm_append_comm.append_right _).trans (by rw [List.append_assoc]; exact .refl _)

/-- The lock is granted in the order of the requests. -/
theorem ordered_grant (hqueue : t.queue = w :: queue) :
    (t.grant w queue written).ordered = t.ordered := by
  unfold ordered waiting grant
  rw [hqueue]
  cases hline : w.line with
  | none => rw [List.filterMap_cons_none hline]
  | some line => rw [List.filterMap_cons_some hline, List.append_assoc]; rfl

theorem cutOff_grant : (t.grant w queue written).cutOff = t.cutOff := by
  unfold grant
  split <;> rfl

theorem lines_grant (hqueue : t.queue = w :: queue) :
    (t.grant w queue written).lines = t.lines := by
  rw [lines, ordered_grant hqueue, cutOff_grant]
  rfl

/-- The request that is dropped leaves the queue. -/
theorem waiting_cut (p : Waiter → Bool) (queue : List Waiter) :
    (queue.filterMap Waiter.line).Perm
      (((queue.find? p).bind Waiter.line).toList ++ (queue.eraseP p).filterMap Waiter.line) := by
  induction queue with
  | nil => exact .refl _
  | cons w rest ih =>
    by_cases hw : p w = true
    · rw [List.find?_cons_of_pos hw, List.eraseP_cons_of_pos hw]
      cases hline : w.line with
      | none => simp [List.filterMap_cons_none hline, hline]
      | some line => simp [List.filterMap_cons_some hline, hline]
    · rw [List.find?_cons_of_neg hw, List.eraseP_cons_of_neg hw]
      cases hline : w.line with
      | none =>
        rw [List.filterMap_cons_none hline, List.filterMap_cons_none hline]
        exact ih
      | some line =>
        rw [List.filterMap_cons_some hline, List.filterMap_cons_some hline]
        exact (ih.cons line).trans List.perm_middle.symm

theorem ordered_cut : (t.cut ticket).ordered.Sublist t.ordered :=
  (List.eraseP_sublist.filterMap _).append_left _

theorem lines_cut : (t.cut ticket).lines.Perm t.lines := by
  have hcut := waiting_cut (isStep ticket) t.queue
  refine List.Perm.symm ?_
  unfold lines ordered waiting
  refine ((hcut.append_left t.emitted).append_right t.cutOff).trans ?_
  simp only [cut, List.append_assoc]
  refine List.Perm.append_left _ ?_
  rw [← List.append_assoc _ t.cutOff]
  exact List.perm_append_comm

/-! ## Tickets -/

theorem stepTickets_request :
    (t.request line false).stepTickets = t.stepTickets ++ [t.tickets] := by
  simp [stepTickets, request, List.filter_append]

theorem stepTickets_worker : (t.request line true).stepTickets = t.stepTickets := by
  simp [stepTickets, request, List.filter_append]

theorem queue_grant : (t.grant w queue written).queue = queue := by
  unfold grant
  split <;> rfl

theorem stepTickets_grant (hqueue : t.queue = w :: queue) (hstep : isStep ticket w = true) :
    t.stepTickets = ticket :: (t.grant w queue written).stepTickets := by
  obtain ⟨hticket, hworker⟩ := Bool.and_eq_true_iff.mp hstep
  rw [stepTickets, stepTickets, queue_grant, hqueue, List.filter_cons, if_pos hworker,
    List.map_cons, of_decide_eq_true hticket]

theorem stepTickets_grant_worker (hqueue : t.queue = w :: queue) (hworker : w.worker = true) :
    (t.grant w queue written).stepTickets = t.stepTickets := by
  rw [stepTickets, stepTickets, queue_grant, hqueue, List.filter_cons_of_neg (by simp [hworker])]

theorem stepTickets_cut : (t.cut ticket).stepTickets = t.stepTickets.erase ticket := by
  unfold stepTickets cut
  dsimp only
  induction t.queue with
  | nil => rfl
  | cons w rest ih =>
    by_cases hstep : isStep ticket w = true
    · obtain ⟨hticket, hworker⟩ := Bool.and_eq_true_iff.mp hstep
      rw [List.eraseP_cons_of_pos hstep, List.filter_cons, if_pos hworker, List.map_cons,
        of_decide_eq_true hticket, List.erase_cons_head]
    · rw [List.eraseP_cons_of_neg hstep]
      by_cases hworker : (!w.worker) = true
      · have hticket : w.ticket ≠ ticket := by
          intro heq
          exact hstep (Bool.and_eq_true_iff.mpr ⟨decide_eq_true heq, hworker⟩)
        rw [List.filter_cons, if_pos hworker, List.filter_cons, if_pos hworker, List.map_cons,
          List.map_cons, List.erase_cons_tail (by simpa using hticket), ih]
      · rw [List.filter_cons, if_neg hworker, List.filter_cons, if_neg hworker, ih]

end TraceFile

/-! ## What is asked for -/

/-- What an action asks the lock for, and what it does to the clock. -/
inductive Asks (a : Action) (s s' : State) : Job → Prop where
  | emits (tracer : Tracer) (event : TraceEvent) (hevent : Unpinned event)
      (hclock : s'.net.currentSlot = s.net.currentSlot) : Asks a s s' (.emit tracer event)
  | closes (id : Nat) (event : TraceEvent) (hkind : event.kind = .connectionClosed)
      (hslot : event.slot = none) (hclock : s'.net.currentSlot = s.net.currentSlot) :
      Asks a s s' (.close id event)
  | drains (hclock : s'.net.currentSlot = s.net.currentSlot) : Asks a s s' .drain
  | closing (idx : Nat) (step : Loader.StepDef) (result : Except RunError Unit)
      (hclock : s'.net.currentSlot = s.net.currentSlot) : Asks a s s' (.closing idx step result)
  | advances (l : Leaf) (old new : UInt64) (ha : a = .advanceToSlot l)
      (hold : s.net.currentSlot = some old) (hnew : s'.net.currentSlot = some new)
      (hlt : old < new) : Asks a s s' (.emit .opened (slotAdvanced old new "advance_to_slot"))
  | ticks (l : Leaf) (old count : UInt64) (ha : a = .tickSlots l)
      (hcount : l.params.count = some count) (hold : s.net.currentSlot = some old)
      (hnew : s'.net.currentSlot = some (old + count)) :
      Asks a s s' (.emit .opened (slotAdvanced old (old + count) "tick_slots"))

/-- What an action does to the trace and the clock. -/
inductive TraceEffect (S : Setting) (a : Action) (s s' : State) : Prop where
  | same (htrace : s'.trace = s.trace) (hclock : s'.net.currentSlot = s.net.currentSlot)
  | begins (ha : a = .begin) (htrace : s'.trace = s.trace)
      (hclock : s'.net.currentSlot = S.scenario.network.bind Loader.Network.startSlot)
  | asks (job : Job) (hjob : Asks a s s' job)
      (htrace : s'.trace = s.trace.request (job.line s'.net.currentSlot) false)
  | grants (ticket : Nat) (job : Job) (w : Waiter) (queue : List Waiter) (written : Bool)
      (ha : a = .waiting ticket job) (hqueue : s.trace.queue = w :: queue)
      (hstep : TraceFile.isStep ticket w = true) (htrace : s'.trace = s.trace.grant w queue written)
      (hclock : s'.net.currentSlot = s.net.currentSlot)

variable {held : List Action} {a : Action} {s s' : State} {rest : Prog}

theorem TraceEffect.pass (hs : s' = s) : TraceEffect S a s s' := by
  subst hs
  exact .same rfl rfl

theorem TraceEffect.emits {moved : State} {tracer : Tracer} {event : TraceEvent}
    (hs : s' = moved.request (.emit tracer event)) (hevent : Unpinned event)
    (htrace : moved.trace = s.trace) (hclock : moved.net.currentSlot = s.net.currentSlot) :
    TraceEffect S a s s' := by
  subst hs
  refine .asks _ (.emits tracer event hevent hclock) ?_
  simp only [State.request, htrace]

/-- **What an action does to the trace**, action by action. -/
theorem exec_trace (h : exec S held a s s' rest) (ha : Genuine S frame steps a) :
    TraceEffect S a s s' := by
  cases a with
  | request job =>
    -- the step joins the queue with the line of its request
    obtain ⟨rfl, -⟩ := h
    cases job with
    | emit tracer event => exact .emits rfl ha rfl rfl
    | close id event => exact ha.elim
    | drain => exact .asks _ (.drains rfl) rfl
    | closing idx step result => exact .asks _ (.closing idx step result rfl) rfl
  | waiting ticket job =>
    -- the lock is free and the request is first in the queue
    obtain ⟨w, queue, written, hqueue, hstep, rfl, -⟩ := h
    exact .grants ticket job w queue written rfl hqueue hstep rfl rfl
  | checkedOut token => exact h.elim
  | begin =>
    obtain ⟨-, vars, rfl, -⟩ := h
    exact .begins rfl rfl rfl
  | initPeer peer =>
    -- a peer without a chain file is announced, any other is passed over
    dsimp only [exec] at h
    split at h
    · exact .pass h.1
    · exact .emits h.1 (unpinned_internal (by decide)) rfl rfl
  | complete passed failed outcome =>
    obtain ⟨ms, hs, -⟩ := h
    exact .emits hs (unpinned_internal (by decide)) rfl rfl
  | drainTable side =>
    obtain ⟨order, -, rfl, -⟩ := h
    exact .same rfl rfl
  | clearListeners =>
    obtain ⟨rfl, -⟩ := h
    exact .same rfl rfl
  | closeNext =>
    -- the records of a cleanup go through the same request as those of a step
    dsimp only [exec] at h
    split at h
    · exact .pass h.1
    · next name id more hdrained =>
      obtain ⟨rfl, -⟩ := h
      exact .asks _ (.closes id _ rfl rfl rfl) rfl
  | substitute idx step => exact .pass h.1
  | reportAborted branchCount => exact .pass h.1
  | io => exact .pass h.1
  | sleep => exact .pass h.1
  | session => exact .pass h.1
  | setVariable name v shape => exact .emits h.1 (unpinned_internal (by decide)) rfl rfl
  | dial l =>
    obtain ⟨rfl, -⟩ := h
    exact .same rfl rfl
  | openConnection side l =>
    obtain ⟨rfl, -⟩ := h
    exact .same rfl rfl
  | take side l kind =>
    dsimp only [exec] at h
    split at h
    · exact .pass h.1
    · obtain ⟨rfl, -⟩ := h
      exact .same rfl rfl
  | takeChannel channel missing =>
    obtain ⟨token, outer, -, h⟩ := h
    split at h
    · obtain ⟨rfl, -⟩ := h
      exact .same rfl rfl
    · exact .pass h.1
  | startWorkers l =>
    -- the session event names the version, so it is not one of the pinned kinds
    obtain ⟨token, outer, -, version, hs, -⟩ := h
    exact .emits hs ⟨rfl, nofun, nofun⟩ rfl rfl
  | storePoints l =>
    obtain ⟨token, outer, -, points, rfl, -⟩ := h
    exact .same rfl rfl
  | fetchPoints l =>
    obtain ⟨token, outer, -, h⟩ := h
    dsimp only at h
    split at h
    · exact .pass h.1
    · obtain ⟨rfl, -⟩ := h
      exact .same rfl rfl
  | serveFixture l kind => exact .pass h.1
  | tip l => exact .pass h.1
  | disconnect l =>
    dsimp only [exec] at h
    split at h
    · exact .pass h.1
    · next id conns hdisconnect =>
      obtain ⟨rfl, -⟩ := h
      exact .asks _ (.closes id _ rfl rfl rfl) rfl
  | openListener l =>
    obtain ⟨rfl, -⟩ := h
    exact .same rfl rfl
  | closeListener l => exact .emits h.1 (unpinned_internal (by decide)) rfl rfl
  | accept l => exact .pass h.1
  | serverHandshake l peerAddress => exact .pass h.1
  | extendChain l =>
    dsimp only [exec] at h
    split at h
    · exact .pass h.1
    · next net hnet =>
      obtain ⟨extension, -, hs, -⟩ := h
      obtain ⟨id, entry, body, ps, -, -, -, rfl⟩ := peerExtendsChain_ok hnet
      exact .emits hs (unpinned_internal (by decide)) rfl rfl
  | advanceToSlot l =>
    -- the clock has moved before the line is stamped
    obtain ⟨order, -, h⟩ := h
    split at h
    · exact h.elim
    · exact .pass h.1
    · next net hnet =>
      obtain ⟨rfl, -⟩ := Prod.mk.inj h
      obtain ⟨old, new, hold, -, hlt, hmoved⟩ := advanceToSlot_ok hnet
      have hnew : net.currentSlot = some new := (applyLocked_eq hmoved).1
      -- the line reads both ends of the move off the clock, neither of which is missing
      have hjob : Job.emit .opened (slotAdvanced (s.net.currentSlot.getD 0)
          (net.currentSlot.getD 0) "advance_to_slot") =
            .emit .opened (slotAdvanced old new "advance_to_slot") := by rw [hold, hnew]; rfl
      refine .asks _ ?_ rfl
      rw [hjob]
      exact .advances l old new rfl hold hnew hlt
  | tickSlots l =>
    obtain ⟨order, -, h⟩ := h
    split at h
    · exact h.elim
    · exact .pass h.1
    · next net hnet =>
      obtain ⟨rfl, -⟩ := Prod.mk.inj h
      obtain ⟨old, count, hold, hcount, hmoved⟩ := tickSlots_ok hnet
      have hnew : net.currentSlot = some (old + count) := (applyLocked_eq hmoved).1
      have hjob : Job.emit .opened (slotAdvanced (s.net.currentSlot.getD 0)
          (net.currentSlot.getD 0) "tick_slots") =
            .emit .opened (slotAdvanced old (old + count) "tick_slots") := by rw [hold, hnew]; rfl
      refine .asks _ ?_ rfl
      rw [hjob]
      exact .ticks l old count rfl hcount hold hnew

/-! ## Who waits -/

/-- The steps that wait are those whose requests are in the queue. -/
def Waiting (l : List Action) (s : State) : Prop := (ticketsOf l).Perm s.trace.stepTickets

/-- Where no step waits, only workers do. -/
theorem Waiting.worker {w : Waiter} (h : Waiting [] s) (hw : w ∈ s.trace.queue) :
    w.worker = true := by
  by_contra hstep
  have hticket : w.ticket ∈ s.trace.stepTickets :=
    List.mem_map_of_mem (List.mem_filter.mpr ⟨hw, by simpa using hstep⟩)
  exact nomatch h.symm.subset hticket

/-- What is left to do waits with the ticket of the request that the action has made. -/
theorem Effect.waiting {l : List Action} (h : Effect S frame steps held a s s' rest)
    (hwaiting : Waiting (a :: l) s) : Waiting (live rest ++ l) s' := by
  -- a step that goes on leaves the queue alone and waits for nothing new
  have hgoes : ∀ {conns : Connections}, GoesOn S frame steps conns s s' rest → a.ticket = none →
      Waiting (live rest ++ l) s' := by
    intro conns h ha
    rw [Waiting, ticketsOf_append, ticketsOf_fresh (Code.fresh h.rest).live, List.nil_append,
      h.trace]
    rwa [Waiting, ticketsOf, List.filterMap_cons_none ha] at hwaiting
  -- a step that asks waits with the ticket of its own request
  have hasks : ∀ {job : Job} {conns : Connections}, Requests S frame steps job conns s s' rest →
      a.ticket = none → Waiting (live rest ++ l) s' := by
    intro job conns h ha
    rw [Waiting, h.rest.live, h.trace, TraceFile.stepTickets_request]
    rw [Waiting, ticketsOf, List.filterMap_cons_none ha] at hwaiting
    exact (hwaiting.cons _).trans (List.perm_append_singleton _ _).symm
  cases h with
  | quiet ha h => exact hgoes h ha.ticket
  | requests job ha _ h => exact hasks h ha.ticket
  | grants ticket job w queue written ha hqueue hstep _ htrace hrest =>
    subst ha
    rw [Waiting, ticketsOf_append, ticketsOf_fresh (Code.fresh hrest).live, List.nil_append, htrace]
    -- the request that is served is the step's own, so one ticket leaves both sides
    have htickets : (ticket :: ticketsOf l).Perm
        (ticket :: (s.trace.grant w queue written).stepTickets) := by
      rw [← TraceFile.stepTickets_grant hqueue hstep]
      exact hwaiting
    exact htickets.cons_inv
  | opens side l conn ha _ _ _ h =>
    subst ha
    exact hgoes h rfl
  | takes side l' kind token ha _ htrace hrest hbody =>
    subst ha hrest
    rw [Waiting, htrace, ticketsOf_append, live]
    -- a connection in hand is no request
    rw [show ticketsOf (.checkedOut token :: live (withConnection l' kind)) =
      ticketsOf (live (withConnection l' kind)) from rfl, ticketsOf_fresh (Code.fresh hbody).live]
    exact hwaiting
  | uses _ _ _ ha _ _ h => exact hgoes h ha.ticket
  | startsWorkers _ _ _ _ ha _ _ h => exact hasks h ha.ticket
  | disconnects _ _ _ _ ha _ h =>
    subst ha
    exact hasks h rfl
  | listens _ ha h =>
    subst ha
    exact hgoes h rfl
  | unlistens _ _ ha _ h =>
    subst ha
    exact hasks h rfl
  | drains _ _ ha _ h =>
    subst ha
    exact hgoes h rfl
  | clears ha h =>
    subst ha
    exact hgoes h rfl
  | closesNext _ _ _ _ ha _ h =>
    subst ha
    exact hasks h rfl

theorem Waiting.drop {l : List Action} (h : Waiting (a :: l) s) :
    Waiting l (Concurrent.drop a s) := by
  cases a with
  | waiting ticket job =>
    show (ticketsOf l).Perm (s.trace.cut ticket).stepTickets
    rw [TraceFile.stepTickets_cut]
    have htickets := List.Perm.erase ticket h
    rwa [show ticketsOf (.waiting ticket job :: l) = ticket :: ticketsOf l from rfl,
      List.erase_cons_head] at htickets
  | _ => exact h

theorem Waiting.ambient {l : List Action} (hambient : Ambient s s') (h : Waiting l s) :
    Waiting l s' := by
  refine h.trans ?_
  cases hambient with
  | request _ =>
    show s.trace.stepTickets.Perm (s.trace.request _ true).stepTickets
    rw [TraceFile.stepTickets_worker]
  | grant hnext hworker =>
    show s.trace.stepTickets.Perm (s.trace.grant _ _ _).stepTickets
    rw [TraceFile.stepTickets_grant_worker hnext hworker]
  | cancel hqueue hworker =>
    show s.trace.stepTickets.Perm _
    unfold TraceFile.stepTickets
    rw [hqueue, List.filter_append, List.filter_append, List.filter_cons,
      if_neg (by simp [hworker])]

theorem Waiting.perm {l l' : List Action} (hperm : l.Perm l') (h : Waiting l s) : Waiting l' s :=
  (hperm.symm.filterMap _).trans h

theorem Waiting.start {l : List Action} (hfresh : Fresh a) (h : Waiting l s) :
    Waiting (a :: l) s := by
  rwa [Waiting, ticketsOf, List.filterMap_cons_none hfresh.ticket]

theorem waiting_keeps : Keeps (machine S) (Genuine S frame steps) Fresh Waiting where
  perm := Waiting.perm
  exec := fun h ha hwaiting => (exec_effect h ha).waiting hwaiting
  leaves := fun h ha => (exec_effect h ha).leaves
  start := Waiting.start
  drop := Waiting.drop
  ambient := Waiting.ambient

end ConformanceHarness.Concurrent
