import ConformanceHarness.Proof.ConnectionNames
import ConformanceHarness.Proof.KeptConnections
import ConformanceHarness.Proof.Ledger

/-!
# What a finished run leaves open

A run that fails in a step goes through `cleanup`, which closes everything. A run whose steps all
pass does not: what its steps have left open stays open. Which names these are is what
`validate_connection_names` would say of the steps that have opened and closed them.
-/

namespace ConformanceHarness.Concurrent

open ConformanceHarness.Lib
open ConformanceHarness.Lib.Scope (All Finished Later ReachesIn Triple live seq always)
open ConformanceHarness.Loader (NameSets checkNames)
open ConformanceHarness.Proof
open ConformanceHarness.Runner (LeafKind RunError)

variable {S : Setting} {frame : Bool} {steps : List Loader.StepDef}

/-! ## Accounts -/

/-- Everything is accounted for: what is held, who waits, and what has been removed; and no
connection has been overwritten. -/
structure Accounted (l : List Action) (s : State) : Prop where
  custody : Custody l s
  waiting : Waiting l s
  ledger : Ledger s
  apart : Apart s.conns

section

variable {held others l l' : List Action} {a : Action} {s s' : State} {rest : Prog}

theorem Accounted.perm (hperm : l.Perm l') (h : Accounted l s) : Accounted l' s :=
  ⟨h.custody.perm hperm, h.waiting.perm hperm, h.ledger, h.apart⟩

theorem Accounted.exec (h : ((machine S).when Free).exec held a s s' rest)
    (ha : Genuine S frame steps a) (hdrain : ∀ side, a = .drainTable side → s.conns.drained = [])
    (haccounted : Accounted (a :: (held ++ others)) s) :
    Accounted (Scope.live rest ++ (held ++ others)) s' :=
  ⟨custody_keeps.exec h.2 ha haccounted.custody, waiting_keeps.exec h.2 ha haccounted.waiting,
    exec_ledger h.2 ha hdrain haccounted.custody haccounted.ledger,
    (exec_effect h.2 ha).moves.apart h.1 haccounted.apart⟩

/-- An action that runs alone. -/
theorem Accounted.alone (h : ((machine S).when Free).exec [] a s s' rest)
    (ha : Genuine S true [] a) (hdrain : ∀ side, a = .drainTable side → s.conns.drained = [])
    (haccounted : Accounted [a] s) : Accounted (Scope.live rest) s' := by
  have hafter := @Accounted.exec S true [] [] [] a s s' rest h ha hdrain haccounted
  rwa [List.append_nil, List.append_nil] at hafter

theorem Accounted.start (hfresh : Fresh a) (h : Accounted l s) : Accounted (a :: l) s :=
  ⟨h.custody.start hfresh, h.waiting.start hfresh, h.ledger, h.apart⟩

theorem Accounted.drop (h : Accounted (a :: l) s) : Accounted l (drop a s) := by
  refine ⟨h.custody.drop, h.waiting.drop, h.ledger.drop a, ?_⟩
  cases a with
  | checkedOut token => exact h.apart.putBack h.custody.mem_inUse
  | _ => exact h.apart

theorem Accounted.ambient (hambient : Ambient s s') (h : Accounted l s) : Accounted l s' := by
  refine ⟨h.custody.ambient hambient, h.waiting.ambient hambient, h.ledger.ambient hambient, ?_⟩
  rw [ambient_conns hambient]
  exact h.apart

end

/-! ## Names -/

/-- The names that are open are those of the validator's bookkeeping. -/
structure Named (c : Connections) : Prop where
  clients : ∀ name, name ∈ c.names .client ↔ name ∈ (openNames 0 c.log .empty).openClients
  servers : ∀ name, name ∈ c.names .server ↔ name ∈ (openNames 0 c.log .empty).openServers
  listeners : c.listeners = (openNames 0 c.log .empty).openListeners

section

variable {held l : List Action} {a : Action} {s s' : State} {rest : Prog} {c c' : Connections}

/-- The names of a side. -/
def openOf (names : NameSets) : Side → Finset String
  | .client => names.openClients
  | .server => names.openServers

theorem Named.side (h : Named c) (side : Side) (name : String) :
    name ∈ c.names side ↔ name ∈ openOf (openNames 0 c.log .empty) side := by
  cases side with
  | client => exact h.clients name
  | server => exact h.servers name

theorem named_of_side (h : ∀ side name, name ∈ c.names side ↔
    name ∈ openOf (openNames 0 c.log .empty) side)
    (hlisteners : c.listeners = (openNames 0 c.log .empty).openListeners) : Named c :=
  ⟨h .client, h .server, hlisteners⟩

/-- The names, the listeners and the log stay. -/
theorem Named.of_same (h : Named c)
    (hnames : ∀ side name, name ∈ c'.names side ↔ name ∈ c.names side)
    (hlisteners : c'.listeners = c.listeners) (hlog : c'.log = c.log) : Named c' := by
  refine named_of_side ?_ ?_
  · intro side name
    rw [hnames, hlog]
    exact h.side side name
  · rw [hlisteners, hlog]
    exact h.listeners

/-- The step that opens connections of a side. -/
def Side.opener : Side → LeafKind
  | .client => .connect
  | .server => .acceptHandshake

/-- What a step that opens a connection adds to the validator's sets. -/
theorem checkNames_opens {side : Side} {l : Leaf} {i : Nat} {names : NameSets}
    (hkind : l.step.kind = .leaf side.opener) :
    (checkNames i l.step names).2.openListeners = names.openListeners ∧
    ∀ side' name, name ∈ openOf (checkNames i l.step names).2 side' ↔
      (side' = side ∧ name = l.asName) ∨ name ∈ openOf names side' := by
  cases side with
  | client =>
    have hchecked : (checkNames i l.step names).2 =
        { names with openClients := insert l.asName names.openClients } := by
      unfold checkNames
      rw [hkind]
      rfl
    rw [hchecked]
    refine ⟨rfl, ?_⟩
    intro side' name
    cases side' with
    | client => simp [openOf]
    | server => simp [openOf]
  | server =>
    have hchecked : (checkNames i l.step names).2 =
        { names with openServers := insert l.asName names.openServers } := by
      unfold checkNames
      rw [hkind]
      rfl
    rw [hchecked]
    refine ⟨rfl, ?_⟩
    intro side' name
    cases side' with
    | client => simp [openOf]
    | server => simp [openOf]

theorem Named.opens {side : Side} {l : Leaf} {conn : Connection} (h : Named c)
    (hname : conn.name = l.asName) (hfree : l.asName ∉ c.table side)
    (hkind : l.step.kind = .leaf side.opener) : Named (c.openAs side l.step conn) := by
  have hlog : (c.openAs side l.step conn).log = c.log ++ [l.step] := rfl
  obtain ⟨hlisteners, hopens⟩ := @checkNames_opens side l (0 + c.log.length)
    (openNames 0 c.log .empty) hkind
  refine named_of_side ?_ ?_
  · intro side' name
    rw [hlog, openNames_snoc, hopens, names_openAs (hname ▸ hfree)]
    by_cases hsame : side' = side
    · subst hsame
      rw [if_pos rfl, List.mem_cons, h.side, hname]
      simp
    · rw [if_neg hsame, h.side]
      simp [hsame]
  · rw [hlog, openNames_snoc, hlisteners, ← h.listeners]
    exact Connections.setTable_listeners ..

theorem Named.disconnects {l : Leaf} {id : Nat} (h : Named c) (hapart : Apart c)
    (hkind : l.step.kind = .leaf .disconnect)
    (hdisconnect : c.disconnect l.step l.onName = some (id, c')) : Named c' := by
  obtain ⟨hlookup, rfl⟩ := Connections.disconnect_eq_some hdisconnect
  have hchecked : ∀ i names, (checkNames i l.step names).2 =
      { names with openClients := names.openClients.erase l.onName } := by
    intro i names
    unfold checkNames
    rw [hkind]
    rfl
  refine named_of_side ?_ ?_
  · intro side name
    show _ ↔ name ∈ openOf (openNames 0 (c.log ++ [l.step]) .empty) side
    rw [openNames_snoc, hchecked]
    cases side with
    | server => exact h.servers name
    | client =>
      show name ∈ (c.clients.erase l.onName).keys ++
        (c.inUse.filter fun token => token.side = .client).map Token.name ↔ _
      -- the name is one of the table's, so erasing it there erases it from the list
      have hnodup : ((c.clients.erase l.onName).keys ++
          (c.inUse.filter fun token => token.side = .client).map Token.name) =
            (c.names .client).erase l.onName := by
        have hmem : l.onName ∈ c.clients.keys :=
          AList.lookup_isSome.mp (Option.isSome_of_eq_some hlookup)
        rw [AList.keys_erase]
        exact (List.erase_append_left _ hmem).symm
      rw [hnodup, (hapart.names .client).mem_erase_iff, h.clients]
      exact Finset.mem_erase.symm
  · show c.listeners = (openNames 0 (c.log ++ [l.step]) .empty).openListeners
    rw [openNames_snoc, hchecked, h.listeners]

theorem Named.listens {l : Leaf} (h : Named c) (hkind : l.step.kind = .leaf .listen) :
    Named { c with listeners := insert l.asName c.listeners, log := c.log ++ [l.step] } := by
  have hchecked : ∀ i names, (checkNames i l.step names).2 =
      { names with openListeners := insert l.asName names.openListeners } := by
    intro i names
    unfold checkNames
    rw [hkind]
    rfl
  refine ⟨?_, ?_, ?_⟩
  · intro name
    rw [openNames_snoc, hchecked]
    exact h.clients name
  · intro name
    rw [openNames_snoc, hchecked]
    exact h.servers name
  · rw [openNames_snoc, hchecked, h.listeners]

theorem Named.unlistens {l : Leaf} (h : Named c) (hkind : l.step.kind = .leaf .closeListener) :
    Named { c with listeners := c.listeners.erase l.onName, log := c.log ++ [l.step] } := by
  have hchecked : ∀ i names, (checkNames i l.step names).2 =
      { names with openListeners := names.openListeners.erase l.onName } := by
    intro i names
    unfold checkNames
    rw [hkind]
    rfl
  refine ⟨?_, ?_, ?_⟩
  · intro name
    rw [openNames_snoc, hchecked]
    exact h.clients name
  · intro name
    rw [openNames_snoc, hchecked]
    exact h.servers name
  · rw [openNames_snoc, hchecked, h.listeners]

/-- What is kept while no step runs `cleanup`: the names, and nothing is drained. -/
structure Going (c : Connections) : Prop where
  named : Named c
  drained : c.drained = []

theorem Going.update {id : Nat} {f : Connection → Connection} (h : Going c) :
    Going (c.update id f) := ⟨⟨h.named.clients, h.named.servers, h.named.listeners⟩, h.drained⟩

theorem Effect.going (h : Effect S false steps held a s s' rest) (ha : Genuine S false steps a)
    (hfree : Free a s) (hapart : Apart s.conns) (hgoing : Going s.conns) : Going s'.conns := by
  have hsame : ∀ {c : Connections}, s'.conns = c → Going c → Going s'.conns := by
    intro c hconns hc
    rwa [hconns]
  cases h with
  | quiet _ h => exact hsame h.conns hgoing
  | requests _ _ _ h => exact hsame h.conns hgoing
  | grants _ _ _ _ _ _ _ _ hconns _ _ => exact hsame hconns hgoing
  | opens side l conn hact _ hname _ h =>
    subst hact
    -- the step is the one that opens connections of that side
    have hkind : l.step.kind = .leaf side.opener := by
      cases side with
      | client => exact IsStep.kind ha
      | server => exact IsStep.kind ha
    refine hsame h.conns ⟨hgoing.named.opens hname hfree.1 hkind, ?_⟩
    exact (Connections.setTable_drained ..).trans hgoing.drained
  | takes side l kind token _ htake _ _ _ =>
    -- a name in use counts as open, so taking a connection leaves the names
    have hconns := (Connections.take_eq_some htake).2.2.2
    refine ⟨hgoing.named.of_same (fun side' name => (names_take htake side').mem_iff) ?_ ?_, ?_⟩
    · rw [hconns]
      exact Connections.setTable_listeners ..
    · rw [hconns]
      exact Connections.setTable_log ..
    · rw [hconns]
      exact (Connections.setTable_drained ..).trans hgoing.drained
  | uses _ _ _ _ _ _ h => exact hsame h.conns hgoing.update
  | startsWorkers _ _ _ _ _ _ _ h => exact hsame h.conns hgoing.update
  | disconnects l id event conns hact hdisconnect h =>
    subst hact
    refine hsame h.conns ⟨hgoing.named.disconnects hapart (IsStep.kind ha) hdisconnect, ?_⟩
    rw [(Connections.disconnect_eq_some hdisconnect).2]
    exact hgoing.drained
  | listens l hact h =>
    subst hact
    exact hsame h.conns ⟨hgoing.named.listens (IsStep.kind ha), hgoing.drained⟩
  | unlistens l job hact _ h =>
    subst hact
    exact hsame h.conns ⟨hgoing.named.unlistens (IsStep.kind ha), hgoing.drained⟩
  | drains _ _ hact _ _ =>
    -- the actions of the cleanup are no step's
    subst hact
    exact absurd ha Bool.false_ne_true
  | clears hact _ =>
    subst hact
    exact absurd ha Bool.false_ne_true
  | closesNext _ _ _ _ hact _ _ =>
    subst hact
    exact absurd ha Bool.false_ne_true

/-- **The steps keep the accounts and the names.** -/
theorem going_keeps : Keeps ((machine S).when Free) (Genuine S false steps) Fresh
    fun l s => Accounted l s ∧ Going s.conns where
  perm := fun hperm h => ⟨h.1.perm hperm, h.2⟩
  exec := by
    intro held others a s s' rest h ha hinv
    have hdrain : ∀ side, a = .drainTable side → s.conns.drained = [] := fun _ _ => hinv.2.drained
    exact ⟨hinv.1.exec h ha hdrain, (exec_effect h.2 ha).going ha h.1 hinv.1.apart hinv.2⟩
  leaves := fun h ha => (exec_effect h.2 ha).leaves
  start := fun hfresh h => ⟨h.1.start hfresh, h.2⟩
  drop := by
    intro a l s h
    refine ⟨h.1.drop, ?_⟩
    cases a with
    | checkedOut token =>
      -- the connection in hand was counted as open, and is so again
      have hnames := h.1.apart.names_putBack h.1.custody.mem_inUse
      refine ⟨h.2.named.of_same (fun side name => (hnames side).mem_iff) ?_ ?_, ?_⟩
      · exact Connections.setTable_listeners ..
      · exact Connections.setTable_log ..
      · exact (Connections.setTable_drained ..).trans h.2.drained
    | _ => exact h.2
  ambient := by
    intro l s s' h hinv
    refine ⟨hinv.1.ambient h, ?_⟩
    rw [ambient_conns h]
    exact hinv.2

end

/-! ## Around the steps -/

/-- An action of `run` itself that leaves the connections alone. -/
def Aside : Action → Prop
  | .request (.emit _ _) => True
  | .waiting _ (.emit _ _) => True
  | .waiting _ (.close _ _) => True
  | .begin => True
  | .initPeer _ => True
  | .complete _ _ _ => True
  | _ => False

section

variable {held l : List Action} {a : Action} {s s' : State} {rest : Prog}

theorem aside_exec (h : exec S held a s s' rest) (ha : Aside a) :
    s'.conns = s.conns ∧ rest.All Aside := by
  cases a with
  | request job =>
    cases job with
    | emit tracer event =>
      obtain ⟨rfl, rfl⟩ := h
      exact ⟨rfl, .act trivial⟩
    | _ => exact ha.elim
  | waiting ticket job =>
    cases job with
    | emit tracer event =>
      obtain ⟨w, queue, written, -, -, rfl, ⟨-, rfl⟩ | ⟨e, rfl⟩⟩ := h
      · exact ⟨rfl, .done⟩
      · exact ⟨rfl, .failed e⟩
    | close id event =>
      obtain ⟨w, queue, written, -, -, rfl, ⟨-, rfl⟩ | ⟨e, rfl⟩⟩ := h
      · exact ⟨rfl, .done⟩
      · exact ⟨rfl, .failed e⟩
    | _ => exact ha.elim
  | begin =>
    obtain ⟨rfl, vars, rfl, -⟩ := h
    exact ⟨rfl, .done⟩
  | initPeer peer =>
    dsimp only [exec] at h
    split at h
    · obtain ⟨rfl, rfl⟩ := h
      exact ⟨rfl, .failed _⟩
    · obtain ⟨rfl, rfl⟩ := h
      exact ⟨rfl, .act trivial⟩
  | complete passed failed outcome =>
    obtain ⟨ms, rfl, rfl⟩ := h
    exact ⟨rfl, All.always (.act trivial) .done⟩
  | _ => exact ha.elim

theorem Aside.token (h : Aside a) : a.token = none := by
  cases a <;> first | rfl | exact h.elim

/-- What leaves the connections alone keeps the accounts. -/
theorem aside_keeps (conns : Connections) : Keeps ((machine S).when Free)
    (fun a => Genuine S frame steps a ∧ Aside a) Fresh
    fun l s => Accounted l s ∧ tokensOf l = [] ∧ s.conns = conns where
  perm := by
    intro l l' s hperm h
    refine ⟨h.1.perm hperm, ?_, h.2.2⟩
    have htokens : (tokensOf l).Perm (tokensOf l') := hperm.filterMap _
    rw [h.2.1] at htokens
    exact htokens.symm.eq_nil
  exec := by
    intro held others a s s' rest h ha hinv
    obtain ⟨hconns, hrest⟩ := aside_exec h.2 ha.2
    have hdrain : ∀ side, a = .drainTable side → s.conns.drained = [] := by
      rintro side rfl
      exact ha.2.elim
    refine ⟨hinv.1.exec h ha.1 hdrain, ?_, hconns.trans hinv.2.2⟩
    -- nothing of `run` itself has a connection in hand
    have hnone : tokensOf (live rest) = [] :=
      List.filterMap_eq_nil_iff.mpr fun b hb => (hrest.live b hb).token
    have htokens := hinv.2.1
    rw [tokensOf, List.filterMap_cons_none ha.2.token] at htokens
    rw [tokensOf_append, hnone]
    exact htokens
  leaves := by
    intro held a s s' rest h ha
    obtain ⟨hall, hlater⟩ := (exec_effect h.2 ha.1).leaves
    exact ⟨hall.and (aside_exec h.2 ha.2).2, hlater⟩
  start := by
    intro a l s hfresh h
    exact ⟨h.1.start hfresh, (List.filterMap_cons_none hfresh.token).trans h.2.1, h.2.2⟩
  drop := by
    intro a l s h
    have hnone : a.token = none := by
      cases hact : a.token with
      | none => rfl
      | some token =>
        have htokens := h.2.1
        rw [tokensOf, List.filterMap_cons_some hact] at htokens
        cases htokens
    have htokens := h.2.1
    rw [tokensOf, List.filterMap_cons_none hnone] at htokens
    refine ⟨h.1.drop, htokens, ?_⟩
    cases a with
    -- giving a connection back would have a token
    | checkedOut token => cases hnone
    | _ => exact h.2.2
  ambient := by
    intro l s s' h hinv
    exact ⟨hinv.1.ambient h, hinv.2.1, (ambient_conns h).trans hinv.2.2⟩

end

/-- What leaves the connections alone leaves what is known of them. -/
theorem aside_triple {c : Prog} (K : Connections → Prop)
    (hcode : c.All (Code S true steps)) (haside : c.All Aside) :
    Triple ((machine S).when Free) [] (fun s => Accounted [] s ∧ K s.conns) c
      (fun s => Accounted [] s ∧ K s.conns) fun _ s => Accounted [] s ∧ K s.conns := by
  intro s y hs hreach
  have hkeeps := @aside_keeps S true steps s.conns
  obtain ⟨hdone, hfailed⟩ := hkeeps.triple ((Code.genuine hcode).and haside) (Code.fresh hcode) s y
    ⟨hs.1, rfl, rfl⟩ hreach
  refine ⟨?_, ?_⟩
  · intro hy
    obtain ⟨haccounted, -, hconns⟩ := hdone hy
    exact ⟨haccounted, hconns ▸ hs.2⟩
  · intro e hy
    obtain ⟨haccounted, -, hconns⟩ := hfailed e hy
    exact ⟨haccounted, hconns ▸ hs.2⟩

theorem accounted_stable (l : List Action) (K : Connections → Prop) :
    ((machine S).when Free).Stable fun s => Accounted l s ∧ K s.conns := by
  intro s s' h hs
  refine ⟨hs.1.ambient h, ?_⟩
  rw [ambient_conns h]
  exact hs.2

/-! ## `cleanup` -/

/-- Where a program does not fail. -/
abbrev Never {ε : Type} : ε → State → Prop := fun _ _ => False

/-- A step that waits for the lock with an event of `run`, whether it is written or not. -/
theorem waited_triple (conns : Connections) {s : State} {job : Job}
    (hjob : Aside (.waiting s.trace.tickets job)) :
    Triple ((machine S).when Free) []
      (fun t => Accounted [.waiting s.trace.tickets job] t ∧ t.conns = conns) (s.wait job)
      (fun t => Accounted [] t ∧ t.conns = conns) fun _ t => Accounted [] t ∧ t.conns = conns := by
  -- a record of a closing waits like any other event
  have hgenuine : Genuine S true [] (.waiting s.trace.tickets job) := by
    cases job with
    | closing _ _ _ => exact hjob.elim
    | _ => trivial
  have hcode : (s.wait job).All fun a => Genuine S true [] a ∧ Aside a := .act ⟨hgenuine, hjob⟩
  have hwait : Triple ((machine S).when Free) [] _ _ _ _ :=
    (aside_keeps conns).tripleLive hcode (.act _)
  refine hwait.weaken ?_ ?_ ?_
  · exact fun t ht => ⟨ht.1, rfl, ht.2⟩
  · exact fun t ht => ⟨ht.1, ht.2.2⟩
  · exact fun _ t ht => ⟨ht.1, ht.2.2⟩

theorem never_stable (e : RunError) : ((machine S).when Free).Stable (Never e) := fun _ _ _ h => h

/-- What has been drained is closed, one connection after the other. -/
theorem closeNext_triple (K : Connections → Prop)
    (hK : ∀ c id more, K c → K (c.closeNext id more)) (n : Nat) :
    Triple ((machine S).when Free) []
      (fun s => Accounted [.closeNext] s ∧ s.conns.drained.length = n ∧ K s.conns)
      (.act .closeNext) (fun s => Accounted [] s ∧ s.conns.drained = [] ∧ K s.conns) Never := by
  induction n with
  | zero =>
    -- nothing is left, and the loop ends
    refine Triple.act (accounted_stable _ fun c => c.drained.length = 0 ∧ K c) ?_
    intro s s' rest ⟨haccounted, hlength, hconns⟩ h
    have hnone := List.eq_nil_of_length_eq_zero hlength
    have hafter := Accounted.alone h rfl (fun _ h => nomatch h) haccounted
    obtain ⟨-, h⟩ := h
    dsimp only [machine, exec] at h
    rw [hnone] at h
    obtain ⟨rfl, rfl⟩ := h
    refine ⟨_, ⟨hafter, hnone, hconns⟩, Triple.done ?_⟩
    exact accounted_stable _ fun c => c.drained = [] ∧ K c
  | succ n ih =>
    -- the next connection leaves the list before its record is asked for
    refine Triple.act (accounted_stable _ fun c => c.drained.length = n + 1 ∧ K c) ?_
    intro s s' rest ⟨haccounted, hlength, hconns⟩ h
    have hafter := Accounted.alone h rfl (fun _ h => nomatch h) haccounted
    obtain ⟨-, h⟩ := h
    dsimp only [machine, exec] at h
    split at h
    · next hnone =>
      rw [hnone] at hlength
      exact nomatch hlength
    · next name id more hdrained =>
      obtain ⟨rfl, rfl⟩ := h
      rw [hdrained] at hlength
      have hmore : more.length = n := Nat.succ.inj hlength
      refine ⟨_, ⟨hafter, rfl⟩, Triple.always (waited_triple (s.conns.closeNext id more) trivial)
        (ih.weaken ?_ (fun _ h => h) fun _ _ h => h)⟩
      intro t ht
      obtain ⟨haccounted', hclosed⟩ := ht
      refine ⟨haccounted'.start trivial, ?_, ?_⟩
      · rw [hclosed]
        exact hmore
      · rw [hclosed]
        exact hK _ _ _ hconns

/-- A map is drained, and its connections are closed. -/
theorem drainTable_triple (side : Side) (K : Connections → Prop)
    (hdrain : ∀ c order, K c → K (c.drain side order))
    (hK : ∀ c id more, K c → K (c.closeNext id more)) :
    Triple ((machine S).when Free) []
      (fun s => Accounted [] s ∧ s.conns.drained = [] ∧ K s.conns) (.act (.drainTable side))
      (fun s => Accounted [] s ∧ s.conns.drained = [] ∧ K s.conns ∧ s.conns.table side = ∅)
      Never := by
  refine Triple.act (accounted_stable _ fun c => c.drained = [] ∧ K c) ?_
  intro s s' rest ⟨haccounted, hnone, hconns⟩ h
  have hafter := Accounted.alone h rfl (fun _ _ => hnone) (haccounted.start trivial)
  obtain ⟨-, order, -, rfl, rfl⟩ := h
  have hclose := @closeNext_triple S (fun c => K c ∧ c.table side = ∅) (fun c id more hc =>
    ⟨hK c id more hc.1, by cases side <;> exact hc.2⟩) order.length
  refine ⟨_, ⟨hafter, ?_, hdrain _ order hconns, ?_⟩, hclose⟩
  · cases side <;> rfl
  · cases side <;> rfl

/-- Nothing is open. -/
structure Closed (c : Connections) : Prop where
  clients : c.clients = ∅
  servers : c.servers = ∅
  listeners : c.listeners = ∅
  drained : c.drained = []

theorem cleanup_triple : Triple ((machine S).when Free) []
    (fun s => Accounted [] s ∧ s.conns.drained = []) cleanup
    (fun s => Accounted [] s ∧ Closed s.conns) Never := by
  refine Triple.seq
    (R := fun s => Accounted [] s ∧ s.conns.drained = [] ∧ s.conns.servers = ∅) never_stable ?_
    (Triple.seq (R := fun s => Accounted [] s ∧ s.conns.drained = [] ∧
      (s.conns.servers = ∅ ∧ s.conns.listeners = ∅)) never_stable ?_ ?_)
  · refine (drainTable_triple .server (fun _ => True) (fun _ _ h => h) fun _ _ _ h => h).weaken
      (fun s hs => ⟨hs.1, hs.2, trivial⟩) ?_ fun _ _ h => h
    intro s hs
    obtain ⟨haccounted, hdrained, -, htable⟩ := hs
    exact ⟨haccounted, hdrained, htable⟩
  · refine Triple.act (accounted_stable _ fun c => c.drained = [] ∧ c.servers = ∅) ?_
    intro s s' rest ⟨haccounted, hdrained, hservers⟩ h
    have hafter := Accounted.alone h rfl (fun _ h => nomatch h) (haccounted.start trivial)
    obtain ⟨-, rfl, rfl⟩ := h
    refine ⟨_, ⟨hafter, hdrained, hservers, rfl⟩, Triple.done ?_⟩
    exact accounted_stable _ fun c => c.drained = [] ∧ c.servers = ∅ ∧ c.listeners = ∅
  · refine (drainTable_triple .client (fun c => c.servers = ∅ ∧ c.listeners = ∅)
      (fun _ _ h => h) fun _ _ _ h => h).weaken (fun _ h => h) ?_ fun _ _ h => h
    intro s ⟨haccounted, hdrained, ⟨hservers, hlisteners⟩, htable⟩
    exact ⟨haccounted, htable, hservers, hlisteners, hdrained⟩

/-! ## `run` -/

theorem initPeers_aside (peers : List Peer) : (initPeers peers).All Aside := by
  induction peers with
  | nil => exact .done
  | cons peer rest ih => exact All.seq (.act trivial) ih

theorem prelude_aside : (prelude S).All Aside := by
  refine All.seq (.act trivial) (All.seq (.act trivial) ?_)
  split
  · exact .done
  · exact All.seq (.act trivial) (initPeers_aside _)

/-- The last event of a run. -/
theorem complete_triple (K : Connections → Prop) {passed failed : Nat} {outcome : String} :
    Triple ((machine S).when Free) [] (fun s => Accounted [] s ∧ K s.conns)
      (.act (.complete passed failed outcome)) (fun s => Accounted [] s ∧ K s.conns) Never := by
  refine Triple.act (accounted_stable _ K) ?_
  intro s s' rest hs h
  have hafter := Accounted.alone h rfl (fun _ h => nomatch h) (hs.1.start trivial)
  obtain ⟨-, ms, rfl, rfl⟩ := h
  refine ⟨_, ⟨hafter, rfl⟩, Triple.always (waited_triple s.conns trivial) ?_⟩
  refine (Triple.done (accounted_stable [] K)).weaken ?_ (fun _ h => h) fun _ _ h => h
  intro t ht
  exact ⟨ht.1, ht.2 ▸ hs.2⟩

theorem runSteps_triple {rest : List Loader.StepDef} {idx : Nat}
    (h : ∀ step ∈ rest, Reachable S.scenario.steps step) :
    Triple ((machine S).when Free) [] (fun s => Accounted [] s ∧ Going s.conns) (runSteps idx rest)
      (fun s => Accounted [] s ∧ Going s.conns) fun _ s => Accounted [] s ∧ Closed s.conns := by
  induction rest generalizing idx with
  | nil => exact (complete_triple Going).weaken (fun _ h => h) (fun _ h => h) fun _ _ h => h.elim
  | cons step rest ih =>
    have hcode : (runStep idx step).All (Code S false S.scenario.steps) :=
      runStep_code (h step List.mem_cons_self)
    have hstep : Triple ((machine S).when Free) [] _ (runStep idx step) _ _ :=
      going_keeps.triple (Code.genuine hcode) (Code.fresh hcode)
    refine hstep.bind (ih fun inner hinner => h inner (List.mem_cons_of_mem _ hinner)) ?_
    intro e
    have hclosed : ((machine S).when Free).Stable fun s => Accounted [] s ∧ Closed s.conns :=
      accounted_stable [] Closed
    have hfails : Triple ((machine S).when Free) [] (fun s => Accounted [] s ∧ Closed s.conns)
        (.failed e) (fun s => Accounted [] s ∧ Going s.conns)
        fun _ s => Accounted [] s ∧ Closed s.conns :=
      Triple.failed (E := fun _ s => Accounted [] s ∧ Closed s.conns) hclosed
    refine Triple.seq (fun _ => hclosed) ?_ (Triple.seq (fun _ => hclosed)
      ((complete_triple Closed).weaken (fun _ h => h) (fun _ h => h) fun _ _ h => h.elim) hfails)
    exact cleanup_triple.weaken (fun s hs => ⟨hs.1, hs.2.drained⟩) (fun _ h => h)
      fun _ _ h => h.elim

theorem accounted_initial : Accounted [] .initial where
  custody := custody_initial rfl
  waiting := .refl _
  ledger :=
    { workers := fun _ h => nomatch h
      kinds := fun _ h => nomatch h
      closings := .refl _
      aborted := fun _ h => nomatch h }
  apart := ⟨fun side => by cases side <;> exact .nil, rfl⟩

theorem run_triple : Triple ((machine S).when Free) []
    (fun s => Accounted [] s ∧ s.conns = .initial) (run S)
    (fun s => Accounted [] s ∧ Going s.conns) fun _ s => Accounted [] s ∧ Closed s.conns := by
  have hclosed : ((machine S).when Free).Stable fun s => Accounted [] s ∧ Closed s.conns :=
    accounted_stable [] Closed
  have hprelude := aside_triple (· = .initial) (@prelude_code S S.scenario.steps) prelude_aside
  have hsteps := @runSteps_triple S S.scenario.steps 0 fun _ hstep => Within.of_root hstep
  refine hprelude.bind (hsteps.weaken ?_ (fun _ h => h) fun _ _ h => h) ?_
  · intro s hs
    refine ⟨hs.1, ?_⟩
    rw [hs.2]
    refine ⟨⟨fun name => ?_, fun name => ?_, rfl⟩, rfl⟩
    · exact iff_of_false List.not_mem_nil (Finset.notMem_empty name)
    · exact iff_of_false List.not_mem_nil (Finset.notMem_empty name)
  · intro e
    refine (Triple.failed hclosed).weaken ?_ (fun _ h => h) fun _ _ h => h
    intro s hs
    refine ⟨hs.1, ?_⟩
    rw [hs.2]
    exact ⟨rfl, rfl, rfl, rfl⟩

/-! ## What is left open -/

/-- Nothing is left open: the maps are empty, and each connection that has been inserted into one
has been aborted, and one event reports its end. -/
structure NothingOpen (s : State) : Prop where
  clients : s.conns.clients = ∅
  servers : s.conns.servers = ∅
  listeners : s.conns.listeners = ∅
  aborted : ∀ id < s.conns.next, (s.conns.connection id).Aborted
  kinds : ∀ line ∈ s.trace.emitted,
    line.closes.isSome = true ↔ line.event.kind = .connectionClosed
  reported : ∀ id < s.conns.next, (s.trace.emitted.filterMap Line.closes).count id = 1

section

variable {s : State}

theorem eq_empty_of_keys {table : Table} (h : table.keys = []) : table = ∅ :=
  AList.ext (List.map_eq_nil_iff.mp h)

theorem names_eq_empty {names : NameSets} (hclients : names.openClients = ∅)
    (hlisteners : names.openListeners = ∅) (hservers : names.openServers = ∅) : names = .empty := by
  cases names
  subst hclients hlisteners hservers
  rfl

/-- Only workers wait. -/
theorem Accounted.waits (h : Accounted [] s) : s.trace.waiting.filterMap Line.closes = [] := by
  refine List.filterMap_eq_nil_iff.mpr ?_
  intro line hline
  obtain ⟨w, hw, hwaits⟩ := List.mem_filterMap.mp hline
  exact h.ledger.workers w hw (h.waiting.worker hw) line hwaits

/-- What has been removed has been reported, or would have been. -/
theorem Accounted.removed (h : Accounted [] s) (hdrained : s.conns.drained = []) :
    s.conns.removed.Perm
      (s.trace.emitted.filterMap Line.closes ++ s.trace.cutOff.filterMap Line.closes) := by
  have hclosings := h.ledger.closings
  rw [hdrained, TraceFile.closings, TraceFile.lines, TraceFile.ordered, List.filterMap_append,
    List.filterMap_append, h.waits, List.append_nil] at hclosings
  exact hclosings

/-- A connection is in a map, or it has been removed. -/
theorem Accounted.places (h : Accounted [] s) :
    (idsOf s.conns.clients ++ (idsOf s.conns.servers ++ s.conns.removed)).Perm
      (List.range s.conns.next) := by
  have hinUse : s.conns.inUse = [] := h.custody.tokens.symm.eq_nil
  have hplaces := h.custody.places
  rwa [Connections.places, hinUse, h.apart.overwritten] at hplaces

/-- What keeps a run from leaving nothing open. -/
theorem nothingOpen_iff (h : Accounted [] s) (hdrained : s.conns.drained = []) :
    NothingOpen s ↔ (∀ line ∈ s.trace.cutOff, line.closes = none) ∧
      s.conns.clients = ∅ ∧ s.conns.servers = ∅ ∧ s.conns.listeners = ∅ := by
  have hremoved := h.removed hdrained
  have hplaces := h.places
  constructor
  · intro hopen
    refine ⟨?_, hopen.clients, hopen.servers, hopen.listeners⟩
    intro line hline
    by_contra hcloses
    obtain ⟨id, hid⟩ := Option.ne_none_iff_exists'.mp hcloses
    have hcut : id ∈ s.trace.cutOff.filterMap Line.closes :=
      List.mem_filterMap.mpr ⟨line, hline, hid⟩
    rw [hopen.clients, hopen.servers] at hplaces
    have hrange : s.conns.removed.Perm (List.range s.conns.next) := hplaces
    have hnext : id < s.conns.next :=
      List.mem_range.mp (hrange.subset (hremoved.symm.subset (List.mem_append_right _ hcut)))
    -- It is reported once, and would have been once more.
    have honce := List.nodup_iff_count_le_one.mp (hrange.nodup_iff.mpr List.nodup_range) id
    rw [hremoved.count_eq, List.count_append, hopen.reported id hnext] at honce
    have hpositive := List.count_pos_iff.mpr hcut
    omega
  · rintro ⟨hcut, hclients, hservers, hlisteners⟩
    have hnone : s.trace.cutOff.filterMap Line.closes = [] := List.filterMap_eq_nil_iff.mpr hcut
    rw [hnone, List.append_nil] at hremoved
    rw [hclients, hservers] at hplaces
    have hrange : s.conns.removed.Perm (List.range s.conns.next) := hplaces
    refine ⟨hclients, hservers, hlisteners, ?_, ?_, ?_⟩
    · intro id hid
      refine h.ledger.aborted id (hrange.symm.subset (List.mem_range.mpr hid)) ?_
      rw [hdrained]
      exact List.not_mem_nil
    · intro line hline
      exact h.ledger.kinds line (List.mem_append_left _ (List.mem_append_left _ hline))
    · intro id hid
      rw [← hremoved.count_eq, hrange.count_eq]
      exact List.count_eq_one_of_mem List.nodup_range (List.mem_range.mpr hid)

/-- The maps hold what is open by the validator's bookkeeping. -/
theorem Named.empty_iff {c : Connections} (h : Named c) (hinUse : c.inUse = []) :
    (c.clients = ∅ ∧ c.servers = ∅ ∧ c.listeners = ∅) ↔ openNames 0 c.log .empty = .empty := by
  have hkeys : ∀ side, c.names side = (c.table side).keys := by
    intro side
    rw [Connections.names, hinUse]
    exact List.append_nil _
  constructor
  · rintro ⟨hclients, hservers, hlisteners⟩
    have hnone : ∀ side name, name ∉ openOf (openNames 0 c.log .empty) side := by
      intro side name hname
      have hmem := (h.side side name).mpr hname
      rw [hkeys] at hmem
      cases side with
      | client => exact List.not_mem_nil (hclients ▸ hmem : name ∈ (∅ : Table).keys)
      | server => exact List.not_mem_nil (hservers ▸ hmem : name ∈ (∅ : Table).keys)
    have hclosed : (openNames 0 c.log .empty).openListeners = ∅ := h.listeners.symm.trans hlisteners
    exact names_eq_empty (Finset.eq_empty_of_forall_notMem (hnone .client)) hclosed
      (Finset.eq_empty_of_forall_notMem (hnone .server))
  · intro hempty
    have hnone : ∀ side, c.table side = ∅ := by
      intro side
      refine eq_empty_of_keys (List.eq_nil_iff_forall_not_mem.mpr ?_)
      intro name hname
      rw [← hkeys, h.side, hempty] at hname
      cases side <;> exact Finset.notMem_empty name hname
    exact ⟨hnone .client, hnone .server, h.listeners.trans (congrArg NameSets.openListeners hempty)⟩

end

/-- **What a finished run leaves open**, where connections are inserted under names that are free:
nothing, exactly if no event of the end of a connection was dropped before it was written, and, in
a run whose steps have all passed, each name that they have opened they have closed. -/
theorem left_open {c : Prog} {s : State}
    (h : Scope.Reaches ((machine S).when Free) (run S, .initial) (c, s)) (hfinished : Finished c) :
    NothingOpen s ↔ (∀ line ∈ s.trace.cutOff, line.closes = none) ∧
      (c = .done → openNames 0 s.conns.log .empty = .empty) := by
  obtain ⟨hdone, hfailed⟩ := run_triple State.initial (c, s) ⟨accounted_initial, rfl⟩ h
  cases hfinished with
  | done =>
    obtain ⟨haccounted, hgoing⟩ := hdone rfl
    rw [nothingOpen_iff haccounted hgoing.drained,
      hgoing.named.empty_iff haccounted.custody.tokens.symm.eq_nil]
    exact and_congr_right fun _ => ⟨fun h _ => h, fun h => h rfl⟩
  | failed e =>
    obtain ⟨haccounted, hclosed⟩ := hfailed e rfl
    rw [nothingOpen_iff haccounted hclosed.drained]
    exact and_congr_right fun _ =>
      ⟨fun _ h => (nomatch h), fun _ => ⟨hclosed.clients, hclosed.servers, hclosed.listeners⟩⟩

/-- A connection is opened and closed, and all is closed. -/
theorem left_open_nothing : ∃ s, NothingOpen s ∧ s.conns.next = 1 := by
  have hconnect : Literal connectStep .connect default := ⟨rfl, rfl, rfl, fun _ => rfl⟩
  have hdisconnect : Literal (plainStep (.leaf .disconnect) []) .disconnect default :=
    ⟨rfl, rfl, rfl, fun _ => rfl⟩
  have hrun : ComesTo (bareSetting minimalScenario) [] (run (bareSetting minimalScenario)) .initial
      .done _ :=
    .bind (prelude_comesTo rfl rfl) (runSteps_comesTo (hconnect.comesTo connect_comesTo)
      (runSteps_comesTo (hdisconnect.comesTo (disconnect_comesTo rfl)) complete_comesTo))
  obtain ⟨t, ht, hreach⟩ := hrun.reaches
  refine ⟨_, (left_open (single_free hreach (Nat.le_refl 1)) .done).mpr ⟨?_, fun _ => rfl⟩, rfl⟩
  intro line hline
  rw [ht.cutOff] at hline
  exact nomatch hline

/-! ## A connection that stays open -/

/-- `connect`, and nothing else. -/
def openScenario : Loader.Scenario := { minimalScenario with steps := [connectStep] }

theorem openScenario_accepted : Loader.Accepted (fun _ => "") openScenario := by
  have hsteps : Loader.validateSteps (fun _ => "") 0 openScenario.steps false =
      .ok ([], false) := by
    refine validateSteps_leaf rfl (by decide) rfl rfl ?_
    rw [Loader.validateSteps]
  have hpeers : Loader.walkAsPeerRefs none 0 openScenario.steps = [] := by
    rw [openScenario, walkAsPeerRefs_plain rfl, Loader.walkAsPeerRefs]
  exact Loader.accepted_iff.mpr ⟨rfl, ⟨false, hsteps⟩, by decide,
    Loader.errorIf_eq_nil.mpr (Bool.and_false _), rfl, hpeers⟩

/-- **The run is successful, and its connection stays in the map.** -/
theorem connection_left_open : Loader.Accepted (fun _ => "") openScenario ∧
    ∃ s, Scope.Reaches (machine (bareSetting openScenario))
      (run (bareSetting openScenario), .initial) (.done, s) ∧ ¬ NothingOpen s := by
  have hconnect : Literal connectStep .connect default := ⟨rfl, rfl, rfl, fun _ => rfl⟩
  have hrun : ComesTo (bareSetting openScenario) [] (run (bareSetting openScenario)) .initial
      .done _ :=
    .bind (prelude_comesTo rfl rfl) (runSteps_comesTo (hconnect.comesTo connect_comesTo)
      complete_comesTo)
  obtain ⟨t, -, hreach⟩ := hrun.reaches
  refine ⟨openScenario_accepted, _, hreach, ?_⟩
  intro hopen
  have hfound : some 0 = none := congrArg (AList.lookup "default") hopen.clients
  exact nomatch hfound

end ConformanceHarness.Concurrent
