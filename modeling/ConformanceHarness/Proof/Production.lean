import ConformanceHarness.Scenario.PeerState
import ConformanceHarness.Proof.Schedule

/-!
# What `apply_production_rules` does to one peer

The call walks a hash map twice, in an order nobody controls. Seen from one peer
none of that matters: its tasks and its events depend on its own id, its own
state and the interval. `producePeer` is that function of one peer, and
`applyProductionRules_peer` says the whole map behaves like it, peer by peer.
Every later fact about production is proved of `producePeer` and lifted here.
-/

namespace ConformanceHarness.Proof

open ConformanceHarness

/-- The events of one peer. -/
def eventsOf (id : String) (events : List ProductionEvent) : List ProductionEvent :=
  events.filter (·.peerId = id)

@[simp] theorem eventsOf_nil (id : String) : eventsOf id [] = [] := rfl

@[simp] theorem eventsOf_append (id : String) (e₁ e₂ : List ProductionEvent) :
    eventsOf id (e₁ ++ e₂) = eventsOf id e₁ ++ eventsOf id e₂ := List.filter_append ..

section

variable {blake2b : List UInt8 → List UInt8}

/-! ## The inner loop -/

@[simp] theorem produceSlot_event_peerId {id kind : String} {ctx : RuleContext} {ps : PeerState}
    {slot : UInt64} : (produceSlot blake2b id kind ctx ps slot).2.peerId = id := by
  unfold produceSlot; split <;> rfl

@[simp] theorem produceSlot_event_slot {id kind : String} {ctx : RuleContext} {ps : PeerState}
    {slot : UInt64} : (produceSlot blake2b id kind ctx ps slot).2.slot = slot := by
  unfold produceSlot; split <;> rfl

@[simp] theorem produceSlot_rule {id kind : String} {ctx : RuleContext} {ps : PeerState}
    {slot : UInt64} :
    (produceSlot blake2b id kind ctx ps slot).1.productionRule = ps.productionRule := by
  unfold produceSlot; split <;> rfl

theorem produceSlots_cons {id kind : String} {ctx : RuleContext} {ps : PeerState} {slot : UInt64}
    {rest : List UInt64} :
    produceSlots blake2b id kind ctx ps (slot :: rest) =
      ((produceSlots blake2b id kind ctx (produceSlot blake2b id kind ctx ps slot).1 rest).1,
        (produceSlot blake2b id kind ctx ps slot).2 ::
          (produceSlots blake2b id kind ctx (produceSlot blake2b id kind ctx ps slot).1 rest).2) :=
  rfl

/-- Production over two runs of slots is production over the first, then the second. -/
theorem produceSlots_append {id kind : String} {ctx : RuleContext} {l₁ l₂ : List UInt64} :
    ∀ {ps : PeerState},
      produceSlots blake2b id kind ctx ps (l₁ ++ l₂) =
        ((produceSlots blake2b id kind ctx (produceSlots blake2b id kind ctx ps l₁).1 l₂).1,
          (produceSlots blake2b id kind ctx ps l₁).2 ++
            (produceSlots blake2b id kind ctx (produceSlots blake2b id kind ctx ps l₁).1
              l₂).2) := by
  induction l₁ with
  | nil => intro ps; rfl
  | cons slot rest ih =>
      intro ps
      rw [List.cons_append, produceSlots_cons, produceSlots_cons, ih]
      rfl

@[simp] theorem produceSlots_rule {id kind : String} {ctx : RuleContext} {l : List UInt64} :
    ∀ {ps : PeerState},
      (produceSlots blake2b id kind ctx ps l).1.productionRule = ps.productionRule := by
  induction l with
  | nil => intro ps; rfl
  | cons slot rest ih => intro ps; rw [produceSlots_cons, ih, produceSlot_rule]

/-- One event for each slot, in order. -/
theorem produceSlots_event_slots {id kind : String} {ctx : RuleContext} {l : List UInt64} :
    ∀ {ps : PeerState}, (produceSlots blake2b id kind ctx ps l).2.map (·.slot) = l := by
  induction l with
  | nil => intro ps; rfl
  | cons slot rest ih =>
      intro ps
      rw [produceSlots_cons, List.map_cons, ih, produceSlot_event_slot]

theorem produceSlots_event_peerId {id kind : String} {ctx : RuleContext} {l : List UInt64} :
    ∀ {ps : PeerState}, ∀ e ∈ (produceSlots blake2b id kind ctx ps l).2, e.peerId = id := by
  induction l with
  | nil => intro ps e he; simp [produceSlots] at he
  | cons slot rest ih =>
      intro ps e he
      rw [produceSlots_cons] at he
      rcases List.mem_cons.mp he with rfl | he
      · exact produceSlot_event_peerId
      · exact ih e he

theorem eventsOf_produceSlots_self {id kind : String} {ctx : RuleContext} {l : List UInt64}
    {ps : PeerState} :
    eventsOf id (produceSlots blake2b id kind ctx ps l).2
      = (produceSlots blake2b id kind ctx ps l).2 := by
  refine List.filter_eq_self.mpr fun e he => ?_
  exact decide_eq_true (produceSlots_event_peerId e he)

theorem eventsOf_produceSlots_ne {id other kind : String} {ctx : RuleContext} {l : List UInt64}
    {ps : PeerState} (h : other ≠ id) :
    eventsOf other (produceSlots blake2b id kind ctx ps l).2 = [] := by
  refine List.filter_eq_nil_iff.mpr fun e he => ?_
  rw [produceSlots_event_peerId e he]
  simp [Ne.symm h]

/-! ## One peer -/

/-- What a call does to one peer; `none` when evaluating its rule does not return. -/
def producePeer (blake2b : List UInt8 → List UInt8) (oldSlot newSlot : UInt64) (id : String)
    (ps : PeerState) : Option (PeerState × List ProductionEvent) :=
  (productionTask oldSlot newSlot id ps).map fun
    | none => (ps, [])
    | some task => produceSlots blake2b task.peerId task.ruleKind task.ctx ps task.slots

theorem productionTask_peerId {oldSlot newSlot : UInt64} {id : String} {ps : PeerState}
    {task : ProductionTask} (h : productionTask oldSlot newSlot id ps = some (some task)) :
    task.peerId = id := by
  unfold productionTask at h
  split at h
  · simp at h
  · simp at h
  · split at h
    · simp at h
    · split at h
      · simp at h
      · obtain ⟨ctx, -, heq⟩ := Option.map_eq_some_iff.mp h
        rw [← Option.some.inj heq]

/-! ## Phase 1 -/

theorem scanPeers_peerId {peers : PeerMap} {oldSlot newSlot : UInt64} :
    ∀ {order : List String} {tasks : List ProductionTask},
      scanPeers peers oldSlot newSlot order = some tasks →
      ∀ task ∈ tasks, task.peerId ∈ order := by
  intro order
  induction order with
  | nil => intro tasks h task ht; simp [scanPeers] at h; simp [h] at ht
  | cons id rest ih =>
      intro tasks h task ht
      rw [scanPeers] at h
      split at h
      · exact List.mem_cons_of_mem _ (ih h task ht)
      · split at h
        · rename_i _ _ t ts htask hts
          obtain rfl := Option.some.inj h
          rcases List.mem_append.mp ht with ht | ht
          · obtain rfl := Option.mem_toList.mp ht
            rw [productionTask_peerId htask]
            exact List.mem_cons_self
          · exact List.mem_cons_of_mem _ (ih hts task ht)
        · simp at h

/-- The scan returns exactly when every peer's rule can be evaluated. -/
theorem scanPeers_isSome {peers : PeerMap} {oldSlot newSlot : UInt64} :
    ∀ {order : List String}, (scanPeers peers oldSlot newSlot order).isSome ↔
      ∀ id ∈ order, ∀ ps, peers id = some ps → (productionTask oldSlot newSlot id ps).isSome := by
  intro order
  induction order with
  | nil => simp [scanPeers]
  | cons id rest ih =>
      rw [scanPeers, List.forall_mem_cons, ← ih]
      cases hp : peers id with
      | none => simp
      | some ps =>
          rcases ht : productionTask oldSlot newSlot id ps with _ | task
          · simp [ht]
          · cases scanPeers peers oldSlot newSlot rest with
            | none => simp
            | some tasks => simp [ht]

/-- A peer's entry in the task list is its own task, if it has one. -/
theorem scanPeers_tasks_of {peers : PeerMap} {oldSlot newSlot : UInt64} {id : String} :
    ∀ {order : List String} {tasks : List ProductionTask}, order.Nodup →
      scanPeers peers oldSlot newSlot order = some tasks → id ∈ order →
      ∀ ps, peers id = some ps → ∃ task?, productionTask oldSlot newSlot id ps = some task? ∧
        tasks.filter (·.peerId = id) = task?.toList := by
  intro order
  induction order with
  | nil => intro tasks _ _ hmem; simp at hmem
  | cons other rest ih =>
      intro tasks hnd h hmem ps hps
      obtain ⟨hnotin, hnd⟩ := List.nodup_cons.mp hnd
      rw [scanPeers] at h
      by_cases hid : id = other
      · subst hid
        rw [hps] at h
        dsimp only at h
        split at h
        · rename_i t ts htask hts
          obtain rfl := Option.some.inj h
          refine ⟨t, htask, ?_⟩
          have hrest : ts.filter (·.peerId = id) = [] := by
            refine List.filter_eq_nil_iff.mpr fun task ht he => hnotin ?_
            have := scanPeers_peerId hts task ht
            rwa [of_decide_eq_true he] at this
          rw [List.filter_append, hrest, List.append_nil]
          refine List.filter_eq_self.mpr fun task ht => ?_
          obtain rfl := Option.mem_toList.mp ht
          exact decide_eq_true (productionTask_peerId htask)
        · simp at h
      · have hin : id ∈ rest := (List.mem_cons.mp hmem).resolve_left hid
        split at h
        · exact ih hnd h hin ps hps
        · split at h
          · rename_i t ts htask hts
            obtain rfl := Option.some.inj h
            obtain ⟨task?, h1, h2⟩ := ih hnd hts hin ps hps
            refine ⟨task?, h1, ?_⟩
            have hhead : t.toList.filter (·.peerId = id) = [] := by
              refine List.filter_eq_nil_iff.mpr fun task ht he => hid ?_
              obtain rfl := Option.mem_toList.mp ht
              rw [← of_decide_eq_true he, productionTask_peerId htask]
            rw [List.filter_append, hhead, h2, List.nil_append]
          · simp at h

/-! ## Phase 2 -/

variable (blake2b) in
/-- A peer without a task is untouched. -/
theorem runTasks_of_not_mem {id : String} (peers : PeerMap) {tasks : List ProductionTask}
    (h : tasks.filter (·.peerId = id) = []) :
    (runTasks blake2b peers tasks).1 id = peers id ∧
      eventsOf id (runTasks blake2b peers tasks).2 = [] := by
  induction tasks generalizing peers with
  | nil => exact ⟨rfl, rfl⟩
  | cons task rest ih =>
      have hne : id ≠ task.peerId := fun he => by simp [he] at h
      have hrest : rest.filter (·.peerId = id) = [] := by
        rw [List.filter_cons_of_neg (by simp [Ne.symm hne])] at h
        exact h
      rw [runTasks]
      split
      · exact ih peers hrest
      · rename_i ps hps
        obtain ⟨h1, h2⟩ := ih (peers.insert task.peerId
          (produceSlots blake2b task.peerId task.ruleKind task.ctx ps task.slots).1) hrest
        refine ⟨?_, ?_⟩
        · exact h1.trans (PeerMap.insert_ne _ _ hne)
        · dsimp only
          rw [eventsOf_append, eventsOf_produceSlots_ne hne, h2]
          rfl

variable (blake2b) in
/-- A peer with one task runs that task. -/
theorem runTasks_of_mem {id : String} {task : ProductionTask} {ps : PeerState} (peers : PeerMap)
    {tasks : List ProductionTask} (h : tasks.filter (·.peerId = id) = [task])
    (hps : peers id = some ps) :
    (runTasks blake2b peers tasks).1 id
        = some (produceSlots blake2b task.peerId task.ruleKind task.ctx ps task.slots).1 ∧
      eventsOf id (runTasks blake2b peers tasks).2
        = (produceSlots blake2b task.peerId task.ruleKind task.ctx ps task.slots).2 := by
  induction tasks generalizing peers with
  | nil => simp at h
  | cons head rest ih =>
      rw [runTasks]
      by_cases hid : head.peerId = id
      · have h' : head = task ∧ rest.filter (·.peerId = id) = [] := by
          simpa [List.filter_cons, hid] using h
        obtain ⟨rfl, hrest⟩ := h'
        subst hid
        rw [hps]
        obtain ⟨h1, h2⟩ := runTasks_of_not_mem blake2b
          (peers.insert head.peerId
            (produceSlots blake2b head.peerId head.ruleKind head.ctx ps head.slots).1) hrest
        refine ⟨?_, ?_⟩
        · exact h1.trans (PeerMap.insert_self ..)
        · dsimp only
          rw [eventsOf_append, h2, eventsOf_produceSlots_self, List.append_nil]
      · have h : rest.filter (·.peerId = id) = [task] := by
          simpa [List.filter_cons, hid] using h
        split
        · exact ih peers h hps
        · rename_i ps' hps'
          obtain ⟨h1, h2⟩ := ih (peers.insert head.peerId
            (produceSlots blake2b head.peerId head.ruleKind head.ctx ps' head.slots).1) h
            (by rw [PeerMap.insert_ne _ _ (Ne.symm hid)]; exact hps)
          refine ⟨h1, ?_⟩
          dsimp only
          rw [eventsOf_append, eventsOf_produceSlots_ne (Ne.symm hid), h2]
          rfl

/-! ## The whole call, peer by peer -/

/-- **Peers do not see each other.** Whatever the iteration order, a peer's new
state and its events are those of `producePeer`. -/
theorem applyProductionRules_peer {order : List String} {peers peers' : PeerMap}
    {oldSlot newSlot : UInt64} {events : List ProductionEvent} (horder : peers.IterOrder order)
    (h : applyProductionRules blake2b order peers oldSlot newSlot = some (peers', events))
    {id : String} {ps : PeerState} (hps : peers id = some ps) :
    ∃ ps' evs, producePeer blake2b oldSlot newSlot id ps = some (ps', evs) ∧
      peers' id = some ps' ∧ eventsOf id events = evs := by
  obtain ⟨tasks, hscan, hrun⟩ := Option.map_eq_some_iff.mp h
  have hin : id ∈ order := (horder.2 id).mpr (by rw [hps]; rfl)
  obtain ⟨task?, htask, hfilter⟩ := scanPeers_tasks_of horder.1 hscan hin ps hps
  have h1 : (runTasks blake2b peers tasks).1 = peers' := by rw [hrun]
  have h2 : (runTasks blake2b peers tasks).2 = events := by rw [hrun]
  subst h1; subst h2
  unfold producePeer
  rw [htask]
  cases task? with
  | none =>
      obtain ⟨hp, he⟩ := runTasks_of_not_mem blake2b peers hfilter
      exact ⟨ps, [], rfl, hp.trans hps, he⟩
  | some task =>
      obtain ⟨hp, he⟩ := runTasks_of_mem blake2b peers hfilter hps
      exact ⟨_, _, rfl, hp, he⟩

/-- Production never declares a peer. -/
theorem applyProductionRules_none {order : List String} {peers peers' : PeerMap}
    {oldSlot newSlot : UInt64} {events : List ProductionEvent} (horder : peers.IterOrder order)
    (h : applyProductionRules blake2b order peers oldSlot newSlot = some (peers', events))
    {id : String} (hps : peers id = none) : peers' id = none ∧ eventsOf id events = [] := by
  obtain ⟨tasks, hscan, hrun⟩ := Option.map_eq_some_iff.mp h
  have hnotin : id ∉ order := fun hin => by
    have := (horder.2 id).mp hin
    rw [hps] at this
    simp at this
  have hfilter : tasks.filter (·.peerId = id) = [] := by
    refine List.filter_eq_nil_iff.mpr fun task ht he => hnotin ?_
    have := scanPeers_peerId hscan task ht
    rwa [of_decide_eq_true he] at this
  obtain ⟨h1, h2⟩ := runTasks_of_not_mem blake2b peers hfilter
  rw [hrun] at h1 h2
  exact ⟨h1.trans hps, h2⟩

/-- The call returns exactly when every peer's rule can be evaluated. -/
theorem applyProductionRules_isSome {order : List String} {peers : PeerMap}
    {oldSlot newSlot : UInt64} (horder : peers.IterOrder order) :
    (applyProductionRules blake2b order peers oldSlot newSlot).isSome ↔
      ∀ id ps, peers id = some ps → (producePeer blake2b oldSlot newSlot id ps).isSome := by
  unfold applyProductionRules producePeer
  simp only [Option.isSome_map, scanPeers_isSome]
  constructor
  · intro h id ps hps
    exact h id ((horder.2 id).mpr (by rw [hps]; rfl)) ps hps
  · intro h id _ ps hps
    exact h id ps hps

/-- The keys of the map survive, so an iteration order stays one. -/
theorem IterOrder.after {order order' : List String} {peers peers' : PeerMap}
    {oldSlot newSlot : UInt64} {events : List ProductionEvent} (horder : peers.IterOrder order)
    (h : applyProductionRules blake2b order peers oldSlot newSlot = some (peers', events))
    (horder' : peers.IterOrder order') : peers'.IterOrder order' := by
  refine ⟨horder'.1, fun id => ?_⟩
  rw [horder'.2 id]
  cases hps : peers id with
  | none => rw [(applyProductionRules_none horder h hps).1]
  | some ps =>
      obtain ⟨ps', _, _, hps', _⟩ := applyProductionRules_peer horder h hps
      rw [hps']
      rfl

end

end ConformanceHarness.Proof
