import ConformanceHarness.Lib.KeySets
import ConformanceHarness.Proof.ModeSeparation
import ConformanceHarness.Runner.FlatRun

/-!
# Names the validator tracks, and names the runner has

`validate_connection_names` interprets a list of steps over three sets of names. In a scenario
without control steps these are the keys of the runner's three maps, whenever no step is under
way. While one is, the connection it has taken out is missing, and what it opens is not there
yet: the maps the step will leave are those with the set of names after it.
-/

namespace ConformanceHarness.Proof

open Connections
open ConformanceHarness.Lib (HasKeys)
open ConformanceHarness.Loader (NameSets checkNames validateConnectionNames errorIf_eq_nil Accepted
  accepted_iff)

/-! ## The three sets -/

/-- The names `validate_connection_names` has open after steps, the first of which is at `i`. -/
def openNames : Nat → List Loader.StepDef → NameSets → NameSets
  | _, [], names => names
  | i, step :: rest, names => openNames (i + 1) rest (checkNames i step names).2

theorem openNames_snoc {step : Loader.StepDef} : ∀ {passed : List Loader.StepDef} {i : Nat}
    {names : NameSets}, openNames i (passed ++ [step]) names =
      (checkNames (i + passed.length) step (openNames i passed names)).2
  | [], _, _ => rfl
  | first :: passed, i, names => by
    rw [List.cons_append, openNames, openNames_snoc, openNames, List.length_cons,
      Nat.add_right_comm, Nat.add_assoc]

/-- No step of an accepted list is at odds with the names before it. -/
theorem checkNames_clean {step : Loader.StepDef} (rest : List Loader.StepDef) :
    ∀ {passed : List Loader.StepDef} {i : Nat} {names : NameSets},
      validateConnectionNames i (passed ++ step :: rest) names = [] →
        (checkNames (i + passed.length) step (openNames i passed names)).1 = []
  | [], _, _, h => (List.append_eq_nil_iff.mp h).1
  | first :: passed, i, names, h => by
    have hrest := checkNames_clean rest (List.append_eq_nil_iff.mp h).2
    rwa [openNames, List.length_cons, Nat.add_comm passed.length, ← Nat.add_assoc]

/-- The sets are the keys of the maps. -/
structure NamesMatch (names : NameSets) (s : State) : Prop where
  clients : HasKeys names.openClients s.connections
  listeners : HasKeys names.openListeners s.listeners
  servers : HasKeys names.openServers s.serverConnections

theorem insert_eq_update {α : Type} (m : NameMap α) (name : String) (a : α) :
    m.insert name a = Function.update m name (some a) := by
  funext other
  rw [NameMap.insert, Function.update_apply]

theorem erase_eq_update {α : Type} (m : NameMap α) (name : String) :
    m.erase name = Function.update m name none := by
  funext other
  rw [NameMap.erase, Function.update_apply]

/-! ## The maps a step leaves -/

/-- The three maps. -/
def State.maps (s : State) :
    NameMap ClientConnection × NameMap Unit × NameMap ServerConnection :=
  (s.connections, s.listeners, s.serverConnections)

theorem NamesMatch.of_maps {names : NameSets} {s s' : State} (h : NamesMatch names s)
    (hmaps : State.maps s' = State.maps s) : NamesMatch names s' := by
  obtain ⟨hconnections, hrest⟩ := Prod.mk.inj hmaps
  obtain ⟨hlisteners, hservers⟩ := Prod.mk.inj hrest
  exact ⟨hconnections ▸ h.clients, hlisteners ▸ h.listeners, hservers ▸ h.servers⟩

/-- The state a step leaves, if it gets to its end. -/
def landed (s : State) (task : Task) : State :=
  let ended := s.putBack task.connName task.held
  match task.completion with
  | .nothing => ended
  | .openClient conn => { ended with connections := ended.connections.insert task.connName conn }
  | .openServer conn =>
    { ended with serverConnections := ended.serverConnections.insert task.connName conn }
  | .openListener => { ended with listeners := ended.listeners.insert task.connName () }
  | .spawnWorkers _ => ended

/-- A step is about to insert an entry where there is one. -/
def Overwrites (s : State) (task : Task) : Prop :=
  match task.completion with
  | .openClient _ => (s.connections task.connName).isSome
  | .openServer _ => (s.serverConnections task.connName).isSome
  | .openListener => (s.listeners task.connName).isSome
  | _ => False

section

variable {s s' : State} {task task' : Task} {id : Nat}

theorem landed_maps (hmaps : State.maps s' = State.maps s) :
    State.maps (landed s' task) = State.maps (landed s task) := by
  obtain ⟨hconnections, hrest⟩ := Prod.mk.inj hmaps
  obtain ⟨hlisteners, hservers⟩ := Prod.mk.inj hrest
  unfold landed State.putBack State.maps
  cases task.completion <;> cases task.held <;> simp [hconnections, hlisteners, hservers]

theorem overwrites_maps (hmaps : State.maps s' = State.maps s) :
    Overwrites s' task ↔ Overwrites s task := by
  obtain ⟨hconnections, hrest⟩ := Prod.mk.inj hmaps
  obtain ⟨hlisteners, hservers⟩ := Prod.mk.inj hrest
  unfold Overwrites
  cases task.completion <;> simp [hconnections, hlisteners, hservers]

/-- A task that has nothing to give back, and nothing to open. -/
def HoldsNothing (task : Task) : Prop := task.held = .nothing ∧ task.completion = .nothing

/-- What an action leaves alone: the maps, and the tasks other than `id`. -/
structure Elsewhere (s s' : State) (id : Nat) : Prop where
  maps : State.maps s' = State.maps s
  spawned : s'.spawned = s.spawned
  tasks : ∀ other, other ≠ id → s'.tasks other = s.tasks other

theorem emit_elsewhere {written : Bool} (h : act s (.emit id written) = some s') :
    Elsewhere s s' id ∧ ∃ task rest, s.tasks id = some task ∧
      s'.tasks id = some { task with pending := rest } := by
  unfold act at h
  cases htask : s.tasks id with
  | none => simp [htask] at h
  | some task =>
    cases hpending : task.pending with
    | nil => simp [htask, hpending] at h
    | cons out rest =>
      simp only [htask, hpending, Option.some.injEq] at h
      subst h
      cases written
      · exact ⟨⟨rfl, rfl, fun other hne => by simp [emitNext, State.setTask, hne]⟩,
          task, rest, rfl, by simp [emitNext, State.setTask]⟩
      · exact ⟨⟨rfl, rfl, fun other hne => by simp [emitNext, State.setTask, hne]⟩,
          task, rest, rfl, by simp [emitNext, State.setTask]⟩

/-- A quiet task is over. -/
theorem quiet_elsewhere (hquiet : ∀ task, s.tasks id = some task → HoldsNothing task)
    (h : act s (.finish id) = some s' ∨ act s (.drop id) = some s') :
    Elsewhere s s' id ∧ s'.tasks id = none := by
  cases htask : s.tasks id with
  | none => simp [act, htask] at h
  | some task =>
    obtain ⟨hheld, hcompletion⟩ := hquiet task htask
    have hs' : s' = s.setTask id none := by
      rcases h with h | h
      · simp only [act, htask] at h
        split at h
        · simpa [complete, hheld, hcompletion, State.putBack] using h.symm
        · exact nomatch h
      · simpa [act, htask, hheld, State.putBack] using h.symm
    subst hs'
    exact ⟨⟨rfl, rfl, fun other hne => by simp [State.setTask, hne]⟩, by simp [State.setTask]⟩

/-- A worker that is spawned holds nothing, and touches no map. -/
theorem spawn_worker {emitter : Emitter} {connName : String} {peerId : Option String}
    {events : List TraceEvent} : HoldsNothing (worker emitter connName peerId events) := ⟨rfl, rfl⟩

/-- What a state has more: tasks that hold nothing. -/
structure Spawns (s s' : State) : Prop where
  maps : State.maps s' = State.maps s
  spawned : s.spawned ≤ s'.spawned
  tasks : ∀ other task, s'.tasks other = some task → s.tasks other = some task ∨ HoldsNothing task
  fresh : (∀ other, s.spawned ≤ other → s.tasks other = none) →
    ∀ other, s'.spawned ≤ other → s'.tasks other = none
  kept : ∀ other, other < s.spawned → s'.tasks other = s.tasks other

theorem Spawns.refl (s : State) : Spawns s s :=
  ⟨rfl, Nat.le_refl _, fun _ _ h => Or.inl h, id, fun _ _ => rfl⟩

theorem Spawns.trans {s₁ s₂ s₃ : State} (h : Spawns s₁ s₂) (h' : Spawns s₂ s₃) : Spawns s₁ s₃ where
  maps := h'.maps.trans h.maps
  spawned := Nat.le_trans h.spawned h'.spawned
  tasks := by
    intro other task hother
    rcases h'.tasks other task hother with hother | hnothing
    · exact h.tasks other task hother
    · exact Or.inr hnothing
  fresh := fun hfresh => h'.fresh (h.fresh hfresh)
  kept := fun other hlt =>
    (h'.kept other (Nat.lt_of_lt_of_le hlt h.spawned)).trans (h.kept other hlt)

theorem Spawns.spawn (s : State) (hnothing : HoldsNothing task) : Spawns s (s.spawn task) where
  maps := rfl
  spawned := Nat.le_succ _
  tasks := by
    intro other task' hother
    by_cases heq : other = s.spawned
    · simp only [State.spawn, heq, if_true, Option.some.injEq] at hother
      exact Or.inr (hother ▸ hnothing)
    · simp only [State.spawn, heq, if_false] at hother
      exact Or.inl hother
  fresh := by
    intro hfresh other hle
    have hne : other ≠ s.spawned := Nat.ne_of_gt hle
    simp only [State.spawn, hne, if_false]
    exact hfresh other (Nat.le_of_succ_le hle)
  kept := by
    intro other hlt
    simp [State.spawn, Nat.ne_of_lt hlt]

theorem spawnKeepAlive_spawns {connName : String} {conn : ClientConnection}
    {traffic : WorkerTraffic} : Spawns s (spawnKeepAlive s connName conn traffic).1 := by
  unfold spawnKeepAlive
  split
  · exact .spawn s spawn_worker
  · exact .refl s

theorem spawnTxSubmission_spawns {connName : String} {conn : ClientConnection}
    {traffic : WorkerTraffic} : Spawns s (spawnTxSubmission s connName conn traffic).1 := by
  unfold spawnTxSubmission
  split
  · exact .spawn s spawn_worker
  · exact .refl s

theorem landed_tasks : (landed s task).tasks = s.tasks := by
  unfold landed State.putBack
  cases task.completion <;> cases task.held <;> rfl

theorem landed_spawned : (landed s task).spawned = s.spawned := by
  unfold landed State.putBack
  cases task.completion <;> cases task.held <;> rfl

/-- A task that spawns no workers is over. -/
theorem complete_landed
    (h : ∀ traffic conn, task.completion = .spawnWorkers traffic → task.held ≠ .client conn) :
    complete s id task = landed (s.setTask id none) task := by
  unfold complete landed
  cases hcompletion : task.completion with
  | spawnWorkers traffic =>
    cases hheld : task.held with
    | client conn => exact absurd hheld (h traffic conn hcompletion)
    | nothing => rfl
    | server conn => rfl
  | _ => rfl

/-- The workers of a connection start, and the step that has it goes on with the same connection. -/
theorem startWorkers_eq (s : State) (task : Task) (id : Nat) (conn : ClientConnection)
    (traffic : WorkerTraffic) :
    ∃ s₂ conn₂ events, Spawns s s₂ ∧ startWorkers s id task conn traffic =
      s₂.setTask id (some { task with
        pending := events, held := .client conn₂, completion := .nothing }) := by
  have hspawns : Spawns s (spawnTxSubmission (spawnKeepAlive s task.connName conn traffic).1
      task.connName (spawnKeepAlive s task.connName conn traffic).2.1 traffic).1 :=
    spawnKeepAlive_spawns.trans spawnTxSubmission_spawns
  exact ⟨_, _, _, hspawns, rfl⟩

/-- A task that has emitted everything ends, or starts the workers of its connection. -/
theorem finish_cases (htask : s.tasks id = some task) (h : act s (.finish id) = some s') :
    s' = landed (s.setTask id none) task ∨ ∃ conn traffic, task.held = .client conn ∧
      task.completion = .spawnWorkers traffic ∧ s' = startWorkers s id task conn traffic := by
  simp only [act, htask] at h
  split at h
  · cases Option.some.inj h
    by_cases hworkers : ∃ conn traffic, task.held = .client conn ∧
        task.completion = .spawnWorkers traffic
    · obtain ⟨conn, traffic, hheld, hcompletion⟩ := hworkers
      exact Or.inr ⟨conn, traffic, hheld, hcompletion, by simp [complete, hheld, hcompletion]⟩
    · exact Or.inl (complete_landed fun traffic conn hcompletion hheld =>
        hworkers ⟨conn, traffic, hheld, hcompletion⟩)
  · exact nomatch h

/-- A task is dropped. -/
theorem drop_tasks (h : act s (.drop id) = some s') :
    s'.tasks = (s.setTask id none).tasks ∧ s'.spawned = s.spawned := by
  cases htask : s.tasks id with
  | none => simp [act, htask] at h
  | some task =>
    simp only [act, htask, Option.some.injEq] at h
    subst h
    unfold State.putBack
    cases task.held <;> exact ⟨rfl, rfl⟩

/-- The names of the connections stay those they were when it will have ended. -/
theorem namesMatch_goesOn {names : NameSets} {s₂ : State} {conn conn₂ : ClientConnection}
    {traffic : WorkerTraffic} {events : List Outgoing} (hheld : task.held = .client conn)
    (hcompletion : task.completion = .spawnWorkers traffic) (hmaps : State.maps s₂ = State.maps s)
    (hmatch : NamesMatch names (landed s task)) : NamesMatch names (landed s₂ { task with
      pending := events, held := .client conn₂, completion := .nothing }) := by
  have hlanded : landed s task =
      { s with connections := s.connections.insert task.connName conn } := by
    simp [landed, hheld, hcompletion, State.putBack]
  rw [hlanded] at hmatch
  obtain ⟨hconnections, hrest⟩ := Prod.mk.inj hmaps
  obtain ⟨hlisteners, hservers⟩ := Prod.mk.inj hrest
  have hclients := hmatch.clients
  dsimp only at hclients
  rw [insert_eq_update, ← hconnections] at hclients
  refine ⟨?_, ?_, ?_⟩
  · show HasKeys names.openClients (NameMap.insert s₂.connections task.connName conn₂)
    rw [insert_eq_update]
    exact hclients.change conn₂
  · exact (hlisteners ▸ hmatch.listeners : HasKeys names.openListeners s₂.listeners)
  · exact (hservers ▸ hmatch.servers : HasKeys names.openServers s₂.serverConnections)

end

/-! ## A step starts -/

/-- What a step that has started has done, and will do: `names` are the names after it. -/
structure Launches (names : NameSets) (s : State) (succeeds : Bool) (s' : State) (task : Task) :
    Prop where
  leaves : succeeds = true → NamesMatch names (landed s' task)
  safe : ¬ Overwrites s' task
  spawned : s'.spawned = s.spawned
  tasks : ∀ id task', s'.tasks id = some task' → s.tasks id = some task'

section

variable {names : NameSets} {s s' : State} {task : Task} {succeeds : Bool}

/-- The workers of a connection are aborted. -/
theorem abort_aborts (handle : Option Nat) : State.maps (s.abort handle) = State.maps s ∧
    (s.abort handle).spawned = s.spawned ∧
    ∀ other task', (s.abort handle).tasks other = some task' → s.tasks other = some task' := by
  cases handle with
  | none => exact ⟨rfl, rfl, fun _ _ h => h⟩
  | some id =>
    refine ⟨rfl, rfl, fun other task' h => ?_⟩
    by_cases heq : other = id
    · simp [State.abort, State.setTask, heq] at h
    · simpa [State.abort, State.setTask, heq] using h

theorem onClient_launches {kind : Runner.LeafKind} {onName : Option String}
    {use : ClientConnection → Option (Use ClientConnection)} (hmatch : NamesMatch names s)
    (hname : nameOr onName ∈ names.openClients)
    (hopens : ∀ conn u, use conn = some u → u.completion = .nothing ∨
      ∃ traffic, u.completion = .spawnWorkers traffic)
    (h : onClient kind onName use s = some (s', task)) : Launches names s succeeds s' task := by
  obtain ⟨conn, hconn⟩ := hmatch.clients.exists_of_mem hname
  simp only [onClient, hconn] at h
  obtain ⟨u, huse, heq⟩ := Option.map_eq_some_iff.mp h
  obtain ⟨rfl, rfl⟩ := Prod.mk.inj heq
  have hclients := hmatch.clients.replace hname u.conn
  rw [← erase_eq_update, ← insert_eq_update] at hclients
  rcases hopens conn u huse with hcompletion | ⟨traffic, hcompletion⟩
  · refine ⟨fun _ => ?_, by simp [Overwrites, hcompletion], rfl, fun _ _ htask => htask⟩
    simp only [landed, hcompletion]
    exact ⟨hclients, hmatch.listeners, hmatch.servers⟩
  · refine ⟨fun _ => ?_, by simp [Overwrites, hcompletion], rfl, fun _ _ htask => htask⟩
    simp only [landed, hcompletion]
    exact ⟨hclients, hmatch.listeners, hmatch.servers⟩

theorem onServer_launches {kind : Runner.LeafKind} {onName : Option String}
    {use : ServerConnection → Option (Use ServerConnection)} (hmatch : NamesMatch names s)
    (hname : nameOr onName ∈ names.openServers)
    (hopens : ∀ conn u, use conn = some u → u.completion = .nothing)
    (h : onServer kind onName use s = some (s', task)) : Launches names s succeeds s' task := by
  obtain ⟨conn, hconn⟩ := hmatch.servers.exists_of_mem hname
  simp only [onServer, hconn] at h
  obtain ⟨u, huse, heq⟩ := Option.map_eq_some_iff.mp h
  obtain ⟨rfl, rfl⟩ := Prod.mk.inj heq
  have hservers := hmatch.servers.replace hname u.conn
  rw [← erase_eq_update, ← insert_eq_update] at hservers
  have hcompletion := hopens conn u huse
  refine ⟨fun _ => ?_, by simp [Overwrites, hcompletion], rfl, fun _ _ htask => htask⟩
  simp only [landed, hcompletion]
  exact ⟨hmatch.clients, hmatch.listeners, hservers⟩

/-- A step on a client connection with an open name finds it, and starts where its channels are
left. -/
theorem onClient_sound {kind : Runner.LeafKind} {onName : Option String}
    {channels : ClientConnection → Bool} {use : ClientConnection → Use ClientConnection}
    (hmatch : NamesMatch names s) (hname : nameOr onName ∈ names.openClients)
    (hopens : ∀ conn, (use conn).completion = .nothing ∨
      ∃ traffic, (use conn).completion = .spawnWorkers traffic) :
    (s.connections (nameOr onName)).isNone = false ∧ ∀ s' task,
      onClient kind onName (fun conn => if channels conn then some (use conn) else none) s =
        some (s', task) → Launches names s succeeds s' task := by
  obtain ⟨conn, hconn⟩ := hmatch.clients.exists_of_mem hname
  refine ⟨by rw [hconn]; rfl, fun s' task hstart => ?_⟩
  refine onClient_launches hmatch hname (fun conn u huse => ?_) hstart
  split at huse
  · rw [← Option.some.inj huse]
    exact hopens conn
  · exact nomatch huse

/-- The same on a server connection. -/
theorem onServer_sound {kind : Runner.LeafKind} {onName : Option String}
    {channels : ServerConnection → Bool} {use : ServerConnection → Use ServerConnection}
    (hmatch : NamesMatch names s) (hname : nameOr onName ∈ names.openServers)
    (hopens : ∀ conn, (use conn).completion = .nothing) :
    (s.serverConnections (nameOr onName)).isNone = false ∧ ∀ s' task,
      onServer kind onName (fun conn => if channels conn then some (use conn) else none) s =
        some (s', task) → Launches names s succeeds s' task := by
  obtain ⟨conn, hconn⟩ := hmatch.servers.exists_of_mem hname
  refine ⟨by rw [hconn]; rfl, fun s' task hstart => ?_⟩
  refine onServer_launches hmatch hname (fun conn u huse => ?_) hstart
  split at huse
  · rw [← Option.some.inj huse]
    exact hopens conn
  · exact nomatch huse

/-- A step of an accepted list finds what it names, and starts. -/
theorem start_sound {i : Nat} {step : Loader.StepDef} {net : NetStep} (hof : net.IsOf step)
    (hclean : (checkNames i step names).1 = []) (hmatch : NamesMatch names s) :
    net.missing s = false ∧ ∀ s' task, net.start s = some (s', task) →
      Launches (checkNames i step names).2 s net.succeeds s' task := by
  cases net with
  | connect asName peerId addr =>
    -- the name is free, so the entry replaces nothing
    obtain ⟨hkind, rfl⟩ := hof
    simp only [checkNames, hkind, errorIf_eq_nil, decide_eq_false_iff_not] at hclean ⊢
    refine ⟨rfl, fun s' task hstart => ?_⟩
    obtain ⟨rfl, rfl⟩ := Prod.mk.inj (Option.some.inj hstart)
    refine ⟨fun _ => ?_, ?_, rfl, fun _ _ htask => htask⟩
    · refine ⟨?_, hmatch.listeners, hmatch.servers⟩
      simp only [landed, insert_eq_update]
      exact hmatch.clients.insert _ _
    · simp [Overwrites, nameOr, hmatch.clients.eq_none hclean]
  | handshake onName versions magic result traffic =>
    obtain ⟨hkind, rfl⟩ := hof
    simp only [checkNames, hkind, errorIf_eq_nil, decide_eq_false_iff_not, not_not] at hclean ⊢
    -- the workers start if a version is agreed on
    refine onClient_sound hmatch hclean fun conn => ?_
    dsimp only
    split
    · exact Or.inr ⟨traffic, rfl⟩
    · exact Or.inl rfl
  | chainSync onName output session =>
    obtain ⟨hkind, rfl, rfl⟩ := hof
    simp only [checkNames, hkind, errorIf_eq_nil, decide_eq_false_iff_not, not_not] at hclean ⊢
    exact onClient_sound hmatch hclean fun _ => Or.inl rfl
  | blockFetch onName session =>
    obtain ⟨hkind, rfl⟩ := hof
    simp only [checkNames, hkind, errorIf_eq_nil, decide_eq_false_iff_not, not_not] at hclean ⊢
    exact onClient_sound hmatch hclean fun _ => Or.inl rfl
  | leiosNotify onName count replies =>
    obtain ⟨hkind, rfl⟩ := hof
    simp only [checkNames, hkind, errorIf_eq_nil, decide_eq_false_iff_not, not_not] at hclean ⊢
    exact onClient_sound hmatch hclean fun _ => Or.inl rfl
  | leiosFetch onName session =>
    obtain ⟨hkind, rfl⟩ := hof
    simp only [checkNames, hkind, errorIf_eq_nil, decide_eq_false_iff_not, not_not] at hclean ⊢
    exact onClient_sound hmatch hclean fun _ => Or.inl rfl
  | serveChainSync onName asPeer session =>
    obtain ⟨hkind, rfl⟩ := hof
    simp only [checkNames, hkind, errorIf_eq_nil, decide_eq_false_iff_not, not_not] at hclean ⊢
    exact onServer_sound hmatch hclean fun _ => rfl
  | serveBlockFetch onName asPeer session =>
    obtain ⟨hkind, rfl⟩ := hof
    simp only [checkNames, hkind, errorIf_eq_nil, decide_eq_false_iff_not, not_not] at hclean ⊢
    exact onServer_sound hmatch hclean fun _ => rfl
  | serveLeiosNotify onName session =>
    obtain ⟨hkind, rfl⟩ := hof
    simp only [checkNames, hkind, errorIf_eq_nil, decide_eq_false_iff_not, not_not] at hclean ⊢
    exact onServer_sound hmatch hclean fun _ => rfl
  | serveLeiosFetch onName session =>
    obtain ⟨hkind, rfl⟩ := hof
    simp only [checkNames, hkind, errorIf_eq_nil, decide_eq_false_iff_not, not_not] at hclean ⊢
    exact onServer_sound hmatch hclean fun _ => rfl
  | queryTip onName output versions magic result tip =>
    -- it opens a connection without a name
    obtain ⟨hkind, rfl, rfl⟩ := hof
    simp only [checkNames, hkind] at hclean ⊢
    refine ⟨rfl, fun s' task hstart => ?_⟩
    obtain ⟨rfl, rfl⟩ := Prod.mk.inj (Option.some.inj hstart)
    exact ⟨fun _ => ⟨hmatch.clients, hmatch.listeners, hmatch.servers⟩, id, rfl,
      fun _ _ htask => htask⟩
  | disconnect onName =>
    obtain ⟨hkind, rfl⟩ := hof
    simp only [checkNames, hkind, errorIf_eq_nil, decide_eq_false_iff_not, not_not] at hclean ⊢
    obtain ⟨conn, hconn⟩ := hmatch.clients.exists_of_mem hclean
    refine ⟨by simp [NetStep.missing, nameOr, hconn], fun s' task hstart => ?_⟩
    simp only [NetStep.start, Connections.disconnect, nameOr, hconn, Option.some.injEq,
      Prod.mk.injEq] at hstart
    obtain ⟨rfl, rfl⟩ := hstart
    -- the two workers of the connection are aborted, which leaves the maps alone
    obtain ⟨hmaps, hspawned, htasks⟩ := abort_aborts (s := s) conn.kaHandle
    obtain ⟨hmaps', hspawned', htasks'⟩ := abort_aborts (s := s.abort conn.kaHandle) conn.tsHandle
    obtain ⟨hconnections, hrest⟩ := Prod.mk.inj (hmaps'.trans hmaps)
    obtain ⟨hlisteners, hservers⟩ := Prod.mk.inj hrest
    refine ⟨fun _ => ⟨?_, ?_, ?_⟩, id, hspawned'.trans hspawned,
      fun other task' h => htasks other task' (htasks' other task' h)⟩
    · have hclients := hmatch.clients.erase (step.onName.getD "default")
      rw [← hconnections, ← erase_eq_update] at hclients
      exact hclients
    · exact (hlisteners ▸ hmatch.listeners :)
    · exact (hservers ▸ hmatch.servers :)
  | listen asName addr =>
    obtain ⟨hkind, rfl⟩ := hof
    simp only [checkNames, hkind, errorIf_eq_nil, decide_eq_false_iff_not] at hclean ⊢
    refine ⟨rfl, fun s' task hstart => ?_⟩
    obtain ⟨rfl, rfl⟩ := Prod.mk.inj (Option.some.inj hstart)
    refine ⟨fun _ => ?_, ?_, rfl, fun _ _ htask => htask⟩
    · refine ⟨hmatch.clients, ?_, hmatch.servers⟩
      simp only [landed, insert_eq_update]
      exact hmatch.listeners.insert _ _
    · simp [Overwrites, nameOr, hmatch.listeners.eq_none hclean]
  | closeListener onName =>
    -- the loader objects to a name that is not open, but the step would not
    obtain ⟨hkind, rfl⟩ := hof
    simp only [checkNames, hkind] at hclean ⊢
    refine ⟨rfl, fun s' task hstart => ?_⟩
    obtain ⟨rfl, rfl⟩ := Prod.mk.inj (Option.some.inj hstart)
    refine ⟨fun _ => ⟨hmatch.clients, ?_, hmatch.servers⟩, id, rfl, fun _ _ htask => htask⟩
    have hlisteners := hmatch.listeners.erase (nameOr step.onName)
    rwa [← erase_eq_update] at hlisteners
  | acceptHandshake onName asName peerId peerAddress versions magic version =>
    obtain ⟨hkind, rfl, rfl⟩ := hof
    simp only [checkNames, hkind, List.append_eq_nil_iff, errorIf_eq_nil,
      decide_eq_false_iff_not, not_not] at hclean ⊢
    obtain ⟨hlistener, hserver⟩ := hclean
    obtain ⟨_, hfound⟩ := hmatch.listeners.exists_of_mem hlistener
    refine ⟨by simp [NetStep.missing, nameOr, hfound], fun s' task hstart => ?_⟩
    simp only [NetStep.start, Connections.acceptHandshake, nameOr, hfound, Option.some.injEq,
      Prod.mk.injEq] at hstart
    obtain ⟨rfl, rfl⟩ := hstart
    cases version with
    -- without a version in common the step fails
    | none => exact ⟨fun h => absurd h Bool.false_ne_true, id, rfl, fun _ _ htask => htask⟩
    | some version =>
      refine ⟨fun _ => ⟨hmatch.clients, hmatch.listeners, ?_⟩, ?_, rfl, fun _ _ htask => htask⟩
      · simp only [landed, insert_eq_update]
        exact hmatch.servers.insert _ _
      · simp [Overwrites, hmatch.servers.eq_none hserver]

end

/-! ## Runs -/

/-- The invariant of the runs of a scenario with these steps. -/
structure Tracked (steps : List Loader.StepDef) (p : Progress) : Prop where
  split : p.passed ++ p.rest = steps
  fresh : ∀ id, p.state.spawned ≤ id → p.state.tasks id = none
  workers : ∀ id task, p.phase.task ≠ some id → p.state.tasks id = some task → HoldsNothing task
  idle : p.phase = .idle → NamesMatch (openNames 0 p.passed .empty) p.state
  running : ∀ id succeeds, p.phase = .running id succeeds → ∃ step rest task,
    p.rest = step :: rest ∧ p.state.tasks id = some task ∧ ¬ Overwrites p.state task ∧
      (succeeds = true →
        NamesMatch (openNames 0 (p.passed ++ [step]) .empty) (landed p.state task))
  found : p.phase ≠ .failed true

theorem tracked_initial (startSlot : Option UInt64) (steps : List Loader.StepDef) :
    Tracked steps (.initial startSlot steps) where
  split := rfl
  fresh := fun _ _ => rfl
  workers := fun _ _ _ h => nomatch h
  idle := fun _ => ⟨.empty, .empty, .empty⟩
  running := fun _ _ h => nomatch h
  found := fun h => nomatch h

/-- A task that ends, or goes on within its own affairs, changes nothing for the others. -/
theorem Tracked.elsewhere {steps passed rest : List Loader.StepDef} {s s' : State} {phase : Phase}
    {id : Nat} (h : Tracked steps ⟨s, phase, passed, rest⟩) (hid : phase.task ≠ some id)
    (helse : Elsewhere s s' id)
    (htask : ∀ task', s'.tasks id = some task' → ∃ task, s.tasks id = some task ∧
      (HoldsNothing task → HoldsNothing task')) :
    Tracked steps ⟨s', phase, passed, rest⟩ where
  split := h.split
  fresh := by
    intro other hle
    rw [helse.spawned] at hle
    -- the task itself is gone or goes on, and every other is as it was
    by_cases heq : other = id
    · subst heq
      cases hother : s'.tasks other with
      | none => rfl
      | some task' =>
        obtain ⟨task, hsome, -⟩ := htask task' hother
        exact nomatch (h.fresh other hle).symm.trans hsome
    · exact (helse.tasks other heq).trans (h.fresh other hle)
  workers := by
    intro other task' hother hsome
    by_cases heq : other = id
    · subst heq
      obtain ⟨task, hbefore, hnothing⟩ := htask task' hsome
      exact hnothing (h.workers other task hother hbefore)
    · exact h.workers other task' hother ((helse.tasks other heq).symm.trans hsome)
  idle := fun hidle => (h.idle hidle).of_maps helse.maps
  running := by
    intro other succeeds hrunning
    obtain ⟨step, rest', task, hrest, htask', hsafe, hleaves⟩ := h.running other succeeds hrunning
    -- the step under way is another task
    have hne : other ≠ id := by
      rintro rfl
      exact hid (by rw [show phase = .running other succeeds from hrunning]; rfl)
    refine ⟨step, rest', task, hrest, (helse.tasks other hne).trans htask', ?_, ?_⟩
    · exact fun hover => hsafe ((overwrites_maps helse.maps).mp hover)
    · exact fun hsucceeds => (hleaves hsucceeds).of_maps (landed_maps helse.maps)
  found := h.found

section

variable {steps passed rest : List Loader.StepDef} {step : Loader.StepDef} {s s' : State}

/-- The invariant while a step is under way. -/
theorem tracked_running {id : Nat} {succeeds : Bool} {task : Task}
    (hsplit : passed ++ step :: rest = steps)
    (hfresh : ∀ other, s.spawned ≤ other → s.tasks other = none)
    (hworkers : ∀ other task', other ≠ id → s.tasks other = some task' → HoldsNothing task')
    (htask : s.tasks id = some task) (hsafe : ¬ Overwrites s task)
    (hleaves : succeeds = true →
      NamesMatch (openNames 0 (passed ++ [step]) .empty) (landed s task)) :
    Tracked steps ⟨s, .running id succeeds, passed, step :: rest⟩ where
  split := hsplit
  fresh := hfresh
  workers := fun other task' hother => hworkers other task' fun heq => hother (by rw [heq]; rfl)
  idle := fun h => nomatch h
  running := by
    intro other succeeds' hrunning
    obtain ⟨rfl, rfl⟩ := Phase.running.inj hrunning
    exact ⟨step, rest, task, rfl, htask, hsafe, hleaves⟩
  found := fun h => nomatch h

/-- The next step starts. -/
theorem Tracked.start {net : NetStep} {task : Task}
    (h : Tracked steps ⟨s, .idle, passed, step :: rest⟩)
    (hlaunches : Launches (openNames 0 (passed ++ [step]) .empty) s net.succeeds s' task) :
    Tracked steps ⟨s'.spawn task, .running s'.spawned net.succeeds, passed, step :: rest⟩ := by
  have hbefore : ∀ other task', other ≠ s'.spawned →
      (s'.spawn task).tasks other = some task' → s.tasks other = some task' := by
    intro other task' hne htask
    simp only [State.spawn, hne, if_false] at htask
    exact hlaunches.tasks other task' htask
  refine tracked_running h.split (fun other hle => ?_) (fun other task' hne htask => ?_)
    (by simp [State.spawn]) hlaunches.safe fun hsucceeds => ?_
  · have hlt : s'.spawned < other := hle
    have hnone := h.fresh other (by rw [← hlaunches.spawned]; exact Nat.le_of_lt hlt)
    cases htask : (s'.spawn task).tasks other with
    | none => rfl
    | some task' => exact nomatch hnone.symm.trans (hbefore other task' (Nat.ne_of_gt hlt) htask)
  · exact h.workers other task' (fun h => nomatch h) (hbefore other task' hne htask)
  · exact (hlaunches.leaves hsucceeds).of_maps (landed_maps rfl)

/-- The step under way emits an event. -/
theorem Tracked.emit {phase : Phase} {id : Nat} {written : Bool}
    (h : Tracked steps ⟨s, phase, passed, rest⟩) (hact : act s (.emit id written) = some s') :
    Tracked steps ⟨s', phase, passed, rest⟩ := by
  obtain ⟨helse, task, events, hbefore, hafter⟩ := emit_elsewhere hact
  by_cases hid : phase.task = some id
  · obtain ⟨succeeds, rfl⟩ : ∃ succeeds, phase = .running id succeeds := by
      cases phase with
      | running other succeeds => exact ⟨succeeds, by rw [Option.some.inj hid]⟩
      | idle => exact nomatch hid
      | failed nameMissing => exact nomatch hid
    obtain ⟨step, rest', task₀, hrest, htask, hsafe, hleaves⟩ := h.running id succeeds rfl
    cases hrest
    cases hbefore.symm.trans htask
    refine tracked_running h.split (fun other hle => ?_) (fun other task' hne htask' => ?_) hafter
      (fun hover => hsafe ((overwrites_maps helse.maps).mp hover)) fun hsucceeds =>
        (hleaves hsucceeds).of_maps (landed_maps helse.maps)
    · rw [helse.spawned] at hle
      have hne : other ≠ id := by
        intro heq
        have hnone := h.fresh other hle
        rw [heq] at hnone
        exact nomatch hnone.symm.trans htask
      exact (helse.tasks other hne).trans (h.fresh other hle)
    · exact h.workers other task' (fun heq => hne (Option.some.inj heq).symm)
        ((helse.tasks other hne).symm.trans htask')
  · refine h.elsewhere hid helse fun task' htask' => ⟨task, hbefore, fun hnothing => ?_⟩
    cases hafter.symm.trans htask'
    exact hnothing

/-- The step under way spawns the workers of its connection. -/
theorem Tracked.goOn {id : Nat} {succeeds : Bool} {task' : Task}
    (h : Tracked steps ⟨s, .running id succeeds, passed, rest⟩)
    (hact : act s (.finish id) = some s') (hgoes : s'.tasks id = some task') :
    Tracked steps ⟨s', .running id succeeds, passed, rest⟩ := by
  obtain ⟨step, rest', task, hrest, htask, hsafe, hleaves⟩ := h.running id succeeds rfl
  rcases finish_cases htask hact with rfl | ⟨conn, traffic, hheld, hcompletion, rfl⟩
  · rw [landed_tasks] at hgoes
    simp [State.setTask] at hgoes
  · cases hrest
    obtain ⟨s₂, conn₂, events, hspawns, heq⟩ :=
      startWorkers_eq s task id conn traffic
    rw [heq]
    have hid : id < s.spawned := by
      by_contra hle
      exact nomatch (h.fresh id (Nat.le_of_not_lt hle)).symm.trans htask
    refine tracked_running h.split (fun other hle => ?_) (fun other task'' hne hsome => ?_)
      (by simp [State.setTask]; rfl) (by simp [Overwrites]) fun hsucceeds => ?_
    · have hne : other ≠ id := Nat.ne_of_gt
        (Nat.lt_of_lt_of_le hid (Nat.le_trans hspawns.spawned hle))
      simpa [State.setTask, hne] using hspawns.fresh h.fresh other hle
    · simp only [State.setTask, hne, if_false] at hsome
      rcases hspawns.tasks other task'' hsome with hbefore | hnothing
      · exact h.workers other task'' (fun heq => hne (Option.some.inj heq).symm) hbefore
      · exact hnothing
    · exact namesMatch_goesOn hheld hcompletion hspawns.maps (hleaves hsucceeds)

/-- The step under way passes. -/
theorem Tracked.pass {id : Nat}
    (h : Tracked steps ⟨s, .running id true, passed, step :: rest⟩)
    (hact : act s (.finish id) = some s') (hends : s'.tasks id = none) :
    Tracked steps ⟨s', .idle, passed ++ [step], rest⟩ := by
  obtain ⟨_, _, task, hrest, htask, hsafe, hleaves⟩ := h.running id true rfl
  obtain ⟨rfl, rfl⟩ := List.cons.inj hrest
  have hs' : s' = landed (s.setTask id none) task := by
    -- a task that starts workers is not over, so this one has landed
    rcases finish_cases htask hact with hs' | ⟨conn, traffic, -, -, rfl⟩
    · exact hs'
    · obtain ⟨s₂, conn₂, events, -, heq⟩ := startWorkers_eq s task id conn traffic
      rw [heq] at hends
      simp [State.setTask] at hends
  have htasks : ∀ other, other ≠ id → s'.tasks other = s.tasks other := by
    intro other hne
    rw [hs', landed_tasks]
    simp [State.setTask, hne]
  refine ⟨by rw [← h.split]; simp, fun other hle => ?_, fun other task' _ hsome => ?_,
    fun _ => ?_, nofun, nofun⟩
  · rw [hs', landed_spawned] at hle
    by_cases heq : other = id
    · rw [heq]
      exact hends
    · exact (htasks other heq).trans (h.fresh other hle)
  · have hne : other ≠ id := by
      intro heq
      rw [heq] at hsome
      exact nomatch hends.symm.trans hsome
    exact h.workers other task' (fun heq => hne (Option.some.inj heq).symm)
      ((htasks other hne).symm.trans hsome)
  · rw [hs']
    exact (hleaves rfl).of_maps (landed_maps rfl)

/-- The step under way fails. -/
theorem Tracked.fail {id : Nat} {succeeds : Bool}
    (h : Tracked steps ⟨s, .running id succeeds, passed, rest⟩)
    (hact : act s (.drop id) = some s') : Tracked steps ⟨s', .failed false, passed, rest⟩ := by
  obtain ⟨htasks, hspawned⟩ := drop_tasks hact
  refine ⟨h.split, fun other hle => ?_, fun other task' _ hsome => ?_, nofun, nofun,
    nofun⟩
  · rw [hspawned] at hle
    rw [htasks]
    by_cases heq : other = id
    · simp [State.setTask, heq]
    · simpa [State.setTask, heq] using h.fresh other hle
  · rw [htasks] at hsome
    by_cases heq : other = id
    · simp [State.setTask, heq] at hsome
    · simp only [State.setTask, heq, if_false] at hsome
      exact h.workers other task' (fun heq' => heq (Option.some.inj heq').symm) hsome

/-- A step that is about no connection leaves the names alone. -/
theorem checkNames_unconnected {i : Nat} {names : NameSets} (h : isUnconnected step.kind) :
    (checkNames i step names).2 = names := by
  rcases h with hkind | hkind | hkind | hkind | hkind <;> simp [checkNames, hkind]

/-- **One step of a run.** -/
theorem tracked_step {p p' : Progress} (hclean : validateConnectionNames 0 steps .empty = [])
    (hstep : FlatStep p p') (h : Tracked steps p) : Tracked steps p' := by
  -- what the validator found about the next step, and the names before it
  have hnext : ∀ {s passed step rest}, Tracked steps ⟨s, .idle, passed, step :: rest⟩ →
      (checkNames (0 + passed.length) step (openNames 0 passed .empty)).1 = [] ∧
        NamesMatch (openNames 0 passed .empty) s := by
    intro s passed step rest h
    refine ⟨checkNames_clean rest ?_, h.idle rfl⟩
    rw [h.split]
    exact hclean
  cases hstep with
  | start hof hstart =>
    obtain ⟨hnames, hmatch⟩ := hnext h
    have hlaunches := (start_sound hof hnames hmatch).2 _ _ hstart
    rw [← openNames_snoc] at hlaunches
    exact h.start hlaunches
  | refuse hof hstart =>
    obtain ⟨hnames, hmatch⟩ := hnext h
    rw [(start_sound hof hnames hmatch).1]
    exact ⟨h.split, h.fresh, h.workers, nofun, nofun, nofun⟩
  | unconnected hkind =>
    refine ⟨by rw [← h.split]; simp, h.fresh, h.workers, fun _ => ?_, nofun, nofun⟩
    rw [openNames_snoc, checkNames_unconnected hkind]
    exact h.idle rfl
  | emit hact => exact h.emit hact
  | @worker s s' phase passed rest id hid hact =>
    obtain ⟨helse, hends⟩ := quiet_elsewhere (fun task => h.workers id task hid) hact
    exact h.elsewhere hid helse fun task' htask' => nomatch hends.symm.trans htask'
  | advance hact =>
    cases Option.some.inj hact
    refine ⟨h.split, h.fresh, h.workers, fun hidle => (h.idle hidle).of_maps rfl, ?_, h.found⟩
    intro id succeeds hrunning
    obtain ⟨step, rest', task, hrest, htask, hsafe, hleaves⟩ := h.running id succeeds hrunning
    exact ⟨step, rest', task, hrest, htask, fun hover => hsafe ((overwrites_maps rfl).mp hover),
      fun hsucceeds => (hleaves hsucceeds).of_maps (landed_maps rfl)⟩
  | goOn hact hgoes => exact h.goOn hact hgoes
  | pass hact hends => exact h.pass hact hends
  | fail hact => exact h.fail hact
  | stop => exact ⟨h.split, h.fresh, h.workers, nofun, nofun, nofun⟩

/-- **Every run.** -/
theorem tracked_run {startSlot : Option UInt64} {p : Progress}
    (hclean : validateConnectionNames 0 steps .empty = []) (hrun : FlatRun startSlot steps p) :
    Tracked steps p := by
  have hreached := hrun.reached
  clear hrun
  induction hreached with
  | refl => exact tracked_initial startSlot steps
  | tail _ hstep ih => exact tracked_step hclean hstep ih

end

/-- **The validation of connection names is sound.** -/
theorem connection_names_sound {serdeError : Value → String} {scenario : Loader.Scenario}
    (haccepted : Accepted serdeError scenario) {startSlot : Option UInt64} {p : Progress}
    (hrun : FlatRun startSlot scenario.steps p) :
    -- no step has failed because a name is missing, and the next one will not
    p.phase ≠ .failed true ∧
    (∀ (step : Loader.StepDef) (rest : List Loader.StepDef) (net : NetStep),
      p.phase = .idle → p.rest = step :: rest → net.IsOf step → net.missing p.state = false) ∧
    -- no step overwrites an entry
    (∀ (id : Nat) (succeeds : Bool) (task : Task), p.phase = .running id succeeds →
      p.state.tasks id = some task → ¬ Overwrites p.state task) ∧
    -- after each step that has passed, the names are the keys
    (p.phase = .idle → NamesMatch (openNames 0 p.passed .empty) p.state) := by
  have hclean := (accepted_iff.mp haccepted).2.2.1
  have htracked := tracked_run hclean hrun
  refine ⟨htracked.found, fun step rest net hidle hrest hof => ?_,
    fun id succeeds task hrunning htask => ?_, htracked.idle⟩
  · have hnames : (checkNames (0 + p.passed.length) step (openNames 0 p.passed .empty)).1 = [] := by
      refine checkNames_clean rest ?_
      rw [← hrest, htracked.split]
      exact hclean
    exact (start_sound hof hnames (htracked.idle hidle)).1
  · obtain ⟨_, _, task', -, htask', hsafe, -⟩ := htracked.running id succeeds hrunning
    cases htask'.symm.trans htask
    exact hsafe

/-! ## A connection is opened -/

/-- `connect`, then `disconnect`. -/
def minimalScenario : Loader.Scenario where
  name := "test"
  targetAddress := some "localhost:3001"
  network := none
  steps := [connectStep, plainStep (.leaf .disconnect) []]

theorem minimalScenario_accepted : Accepted (fun _ => "") minimalScenario := by
  have hsteps : Loader.validateSteps (fun _ => "") 0 minimalScenario.steps false =
      .ok ([], false) := by
    refine validateSteps_leaf rfl (by decide) rfl rfl
      (validateSteps_leaf rfl (by decide) rfl rfl ?_)
    rw [Loader.validateSteps]
  have hpeers : Loader.walkAsPeerRefs none 0 minimalScenario.steps = [] := by
    rw [minimalScenario, walkAsPeerRefs_plain rfl, walkAsPeerRefs_plain rfl, Loader.walkAsPeerRefs]
  exact accepted_iff.mpr ⟨rfl, ⟨false, hsteps⟩, by decide, errorIf_eq_nil.mpr (Bool.and_false _),
    rfl, hpeers⟩

/-- The connection is open. -/
theorem minimalScenario_run : ∃ s, FlatRun none minimalScenario.steps
    ⟨s, .idle, [connectStep], [plainStep (.leaf .disconnect) []]⟩ := by
  have hflat : ∀ step ∈ minimalScenario.steps, step.kind ≠ .repeat ∧ step.kind ≠ .parallel := by
    intro step hstep
    rcases List.mem_pair.mp hstep with rfl | rfl <;> exact ⟨nofun, nofun⟩
  have hof : (NetStep.connect none none "localhost:3001").IsOf connectStep := ⟨rfl, rfl⟩
  exact ⟨_, hflat, .head (.start hof rfl) (.head
    (.emit (show act _ (.emit 0 true) = some _ from rfl)) (.single (.pass rfl rfl)))⟩

theorem connection_names_connected : ∃ s : State,
    FlatRun none minimalScenario.steps
      ⟨s, .idle, [connectStep], [plainStep (.leaf .disconnect) []]⟩ ∧
    (∀ net : NetStep, net.IsOf (plainStep (.leaf .disconnect) []) → net.missing s = false) ∧
    NamesMatch (openNames 0 [connectStep] .empty) s := by
  obtain ⟨s, hrun⟩ := minimalScenario_run
  obtain ⟨-, hfound, -, hmatch⟩ := connection_names_sound minimalScenario_accepted hrun
  exact ⟨s, hrun, fun net hof => hfound _ _ net rfl rfl hof, hmatch rfl⟩

end ConformanceHarness.Proof
