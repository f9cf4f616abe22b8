import ConformanceHarness.Proof.Custody
import ConformanceHarness.Proof.PeerReferences

/-!
# Connections that are not lost

A step that connects under the name of a connection that is there drops that connection without
closing it. Where this does not happen, each connection stays in its map, or with one step, until
it is removed.
-/

namespace ConformanceHarness.Concurrent

open ConformanceHarness.Lib
open ConformanceHarness.Lib.Scope (Finished live seq)
open ConformanceHarness.Proof
open ConformanceHarness.Runner (LeafKind)

variable {S : Setting} {frame : Bool} {steps : List Loader.StepDef}

/-! ## Names that are free -/

/-- The condition under which an action may be executed: a connection is only inserted under a name
that is not in its map, and that no step has checked out from there. -/
def Free : Action → State → Prop
  | .openConnection side l, s => l.asName ∉ s.conns.table side ∧
    ∀ token ∈ s.conns.inUse, token.side = side → token.name ≠ l.asName
  | _, _ => True

/-- The names of the connections of a side, in its map and checked out. -/
def Connections.names (c : Connections) (side : Side) : List String :=
  (c.table side).keys ++ (c.inUse.filter fun token => token.side = side).map Token.name

/-- Every name is the name of one connection, and no connection has been overwritten. -/
structure Apart (c : Connections) : Prop where
  names : ∀ side, (c.names side).Nodup
  overwritten : c.overwritten = []

section

variable {c c' : Connections} {side : Side} {name : String} {id : Nat} {token : Token}

/-- No name comes in. -/
theorem Apart.less (h : Apart c) (hnames : ∀ side, (c'.names side).Subperm (c.names side))
    (hoverwritten : c'.overwritten = c.overwritten) : Apart c' :=
  ⟨fun side => let ⟨_, hperm, hsub⟩ := hnames side
    hperm.nodup_iff.mp (hsub.nodup (h.names side)), hoverwritten.trans h.overwritten⟩

theorem names_insertAs (hname : name ∉ c.table side) (side' : Side) :
    ((c.insertAs side name id).table side').keys =
      if side' = side then name :: (c.table side).keys else (c.table side').keys := by
  have htable : (c.insertAs side name id).table side' =
      (c.setTable side ((c.table side).insert name id)).table side' := by
    cases side' <;> rfl
  rw [htable]
  by_cases hsame : side' = side
  · subst hsame
    rw [if_pos rfl, Connections.setTable_table, AList.keys_insert, List.erase_of_not_mem hname]
  · rw [if_neg hsame, Connections.setTable_other _ _ _ hsame]

theorem overwritten_insertAs (id : Nat) (hname : name ∉ c.table side) :
    (c.insertAs side name id).overwritten = c.overwritten := by
  show c.overwritten ++ ((c.table side).lookup name).toList = c.overwritten
  rw [AList.lookup_eq_none.mpr hname, Option.toList_none, List.append_nil]

theorem names_openAs {step : Loader.StepDef} {conn : Connection} (hname : conn.name ∉ c.table side)
    (side' : Side) : (c.openAs side step conn).names side' =
      if side' = side then conn.name :: c.names side else c.names side' := by
  have hkeys := @names_insertAs c side conn.name c.next hname side'
  have hinUse : (c.openAs side step conn).inUse = c.inUse := Connections.setTable_inUse ..
  have htable : ((c.openAs side step conn).table side').keys =
      ((c.insertAs side conn.name c.next).table side').keys := by
    cases side' <;> rfl
  rw [Connections.names, htable, hkeys, hinUse]
  by_cases hsame : side' = side
  · subst hsame
    rw [if_pos rfl, if_pos rfl, List.cons_append]
    rfl
  · rw [if_neg hsame, if_neg hsame]
    rfl

theorem Apart.openAs {step : Loader.StepDef} {conn : Connection} (h : Apart c)
    (hname : conn.name ∉ c.table side)
    (hheld : ∀ token ∈ c.inUse, token.side = side → token.name ≠ conn.name) :
    Apart (c.openAs side step conn) := by
  refine ⟨?_, (overwritten_insertAs c.next hname).trans h.overwritten⟩
  intro side'
  rw [names_openAs hname]
  by_cases hsame : side' = side
  · subst hsame
    rw [if_pos rfl]
    refine List.nodup_cons.mpr ⟨?_, h.names side'⟩
    intro hmem
    rcases List.mem_append.mp hmem with hmem | hmem
    · exact hname hmem
    · obtain ⟨token, htoken, heq⟩ := List.mem_map.mp hmem
      obtain ⟨htoken, hside⟩ := List.mem_filter.mp htoken
      exact hheld token htoken (of_decide_eq_true hside) heq
  · rw [if_neg hsame]
    exact h.names side'

theorem names_take (htake : c.take side name = some (token, c')) (side' : Side) :
    (c'.names side').Perm (c.names side') := by
  obtain ⟨hlookup, hside, hname, rfl⟩ := Connections.take_eq_some htake
  have hmem : name ∈ (c.table side).keys :=
    AList.lookup_isSome.mp (Option.isSome_of_eq_some hlookup)
  have htable : ∀ conns : Connections, ({ conns with inUse := token :: c.inUse } : Connections).table
      side' = conns.table side' := by
    intro conns
    cases side' <;> rfl
  rw [Connections.names, Connections.names, htable, List.filter_cons]
  -- the name goes from the keys of the table to the names in use
  by_cases hsame : side' = side
  · subst hsame
    rw [if_pos (decide_eq_true hside), Connections.setTable_table, AList.keys_erase, List.map_cons,
      hname]
    exact List.perm_middle.trans ((List.perm_cons_erase hmem).symm.append_right _)
  · rw [if_neg (by simp [hside, Ne.symm hsame]), Connections.setTable_other _ _ _ hsame]

theorem Apart.take (h : Apart c) (htake : c.take side name = some (token, c')) : Apart c' := by
  refine h.less (fun side' => (names_take htake side').subperm) ?_
  rw [(Connections.take_eq_some htake).2.2.2]
  exact Connections.setTable_overwritten ..

/-- A name that is checked out is not in the map. -/
theorem Apart.not_filed (h : Apart c) (htoken : token ∈ c.inUse) :
    token.name ∉ c.table token.side := by
  intro hmem
  have hheld : token.name ∈ (c.inUse.filter fun other => other.side = token.side).map Token.name :=
    List.mem_map_of_mem (List.mem_filter.mpr ⟨htoken, decide_eq_true rfl⟩)
  exact List.disjoint_of_nodup_append (h.names token.side) hmem hheld

theorem Apart.names_putBack (h : Apart c) (htoken : token ∈ c.inUse) (side : Side) :
    ((c.putBack token).names side).Perm (c.names side) := by
  have htable : (c.putBack token).table side =
      (c.insertAs token.side token.name token.id).table side := by
    cases side <;> rfl
  have hinUse : (c.putBack token).inUse = c.inUse.erase token := rfl
  have hheld := ((List.perm_cons_erase htoken).filter fun other => other.side = side).map Token.name
  rw [Connections.names, Connections.names, htable, names_insertAs (h.not_filed htoken), hinUse]
  refine List.Perm.trans ?_ (hheld.symm.append_left _)
  rw [List.filter_cons]
  -- and back: it is not filed meanwhile, so it counts once
  by_cases hsame : side = token.side
  · subst hsame
    rw [if_pos rfl, if_pos (decide_eq_true rfl)]
    exact List.perm_middle.symm
  · rw [if_neg hsame, if_neg (by simp [Ne.symm hsame])]

theorem Apart.putBack (h : Apart c) (htoken : token ∈ c.inUse) : Apart (c.putBack token) :=
  h.less (fun side => (h.names_putBack htoken side).subperm)
    (overwritten_insertAs token.id (h.not_filed htoken))

end

/-- Names stay apart as long as connections are inserted under names that are free. -/
theorem Moves.apart {a : Action} {s : State} {c' : Connections} (h : Moves a s.conns c')
    (hfree : Free a s) (hapart : Apart s.conns) : Apart c' := by
  cases h with
  | stays h =>
    refine hapart.less ?_ h.overwritten
    intro side
    rw [Connections.names, h.table, h.inUse]
    exact .refl _
  | opens side l conn ha _ hname hc =>
    subst ha hc
    refine hapart.openAs ?_ ?_
    · rw [hname]
      exact hfree.1
    · rw [hname]
      exact hfree.2
  | takes side l kind token _ htake => exact hapart.take htake
  | disconnects l id _ hdisconnect =>
    -- a name that is erased is one less
    obtain ⟨-, rfl⟩ := Connections.disconnect_eq_some hdisconnect
    refine hapart.less ?_ rfl
    intro side
    refine List.Sublist.subperm (List.Sublist.append_right ?_ _)
    cases side with
    | client =>
      show (s.conns.clients.erase l.onName).keys.Sublist s.conns.clients.keys
      rw [AList.keys_erase]
      exact List.erase_sublist
    | server => exact .refl _
  | drains side order _ _ hc =>
    -- the table is empty, and the names in use are as before
    subst hc
    refine hapart.less ?_ (Connections.setTable_overwritten ..)
    intro side'
    have hinUse : (s.conns.drain side order).inUse = s.conns.inUse := Connections.setTable_inUse ..
    rw [Connections.names, hinUse]
    refine List.Sublist.subperm (List.Sublist.append_right ?_ _)
    cases side <;> cases side' <;> first | exact List.nil_sublist _ | exact .refl _

/-- Custody and names, in runs in which connections are inserted under names that are free. -/
theorem apart_keeps : Keeps ((machine S).when Free) (Genuine S frame steps) Fresh
    fun l s => Custody l s ∧ Apart s.conns where
  perm := fun hperm h => ⟨h.1.perm hperm, h.2⟩
  exec := fun h ha hinv =>
    ⟨custody_keeps.exec h.2 ha hinv.1, (exec_effect h.2 ha).moves.apart h.1 hinv.2⟩
  leaves := fun h ha => (exec_effect h.2 ha).leaves
  start := fun hfresh h => ⟨h.1.start hfresh, h.2⟩
  drop := by
    intro a l s h
    refine ⟨h.1.drop, ?_⟩
    cases a with
    | checkedOut token => exact h.2.putBack h.1.mem_inUse
    | _ => exact h.2
  ambient := by
    intro l s s' h hinv
    refine ⟨hinv.1.ambient h, ?_⟩
    rw [ambient_conns h]
    exact hinv.2

/-! ## Where a connection is -/

/-- It is in its map, under its name. -/
def Connections.Filed (c : Connections) (id : Nat) : Prop :=
  (c.table (c.connection id).side).lookup (c.connection id).name = some id

/-- It is in no map. -/
def Connections.Unfiled (c : Connections) (id : Nat) : Prop :=
  ∀ side name, (c.table side).lookup name ≠ some id

/-- A connection is in its map under its name, or one of the tokens is for it, or it has been
removed; and only one of these. -/
inductive Kept (tokens : List Token) (c : Connections) (id : Nat) : Prop where
  | filed (h : c.Filed id) (hheld : ∀ token ∈ tokens, token.id ≠ id)
      (hdisconnected : id ∉ c.disconnected) (hcleaned : id ∉ c.cleaned)
  | checkedOut (token : Token) (h : tokens.filter (fun token => token.id = id) = [token])
      (hside : token.side = (c.connection id).side) (hname : token.name = (c.connection id).name)
      (hunfiled : c.Unfiled id) (hdisconnected : id ∉ c.disconnected) (hcleaned : id ∉ c.cleaned)
  | removed (h : id ∈ c.disconnected ∨ id ∈ c.cleaned) (hheld : ∀ token ∈ tokens, token.id ≠ id)
      (hunfiled : c.Unfiled id)

theorem filter_id (tokens : List Token) (id : Nat) :
    (tokens.filter fun token => token.id = id).length = (tokens.map Token.id).count id := by
  rw [List.count, List.countP_map, List.countP_eq_length_filter]
  rfl

theorem unfiled_of_count {c : Connections} {id : Nat}
    (h : (idsOf c.clients).count id + (idsOf c.servers).count id = 0) : c.Unfiled id := by
  intro side name hlookup
  have hmem : id ∈ idsOf (c.table side) := mem_valuesOf.mpr ⟨name, hlookup⟩
  have hpos := List.count_pos_iff.mpr hmem
  cases side with
  | client =>
    simp only [Connections.table] at hpos
    omega
  | server =>
    simp only [Connections.table] at hpos
    omega

theorem Labelled.filed_of_mem {c : Connections} (h : Labelled c) {side : Side} {id : Nat}
    (hmem : id ∈ idsOf (c.table side)) : c.Filed id := by
  obtain ⟨name, hlookup⟩ := mem_valuesOf.mp hmem
  obtain ⟨hside, hname⟩ := h.filed side name id hlookup
  rw [Connections.Filed, hside, hname]
  exact hlookup

/-- **Every connection is kept** in a state with custody in which none has been overwritten. -/
theorem Custody.kept {l : List Action} {s : State} (h : Custody l s) (hapart : Apart s.conns)
    {id : Nat} (hid : id < s.conns.next) : Kept (tokensOf l) s.conns id := by
  -- the numbers given out are each in one place
  have hone : s.conns.places.count id = 1 := by
    rw [h.places.count_eq]
    exact List.count_eq_one_of_mem List.nodup_range (List.mem_range.mpr hid)
  have htokens := (h.tokens.filter fun token => token.id = id).length_eq
  rw [filter_id, filter_id] at htokens
  simp only [Connections.places, hapart.overwritten, List.nil_append, List.count_append] at hone
  -- no token has a number that is not in use
  have hnotHeld : (s.conns.inUse.map Token.id).count id = 0 →
      ∀ token ∈ tokensOf l, token.id ≠ id := by
    intro hzero token htoken heq
    have hmem : id ∈ (tokensOf l).map Token.id := heq ▸ List.mem_map_of_mem htoken
    have hpos := List.count_pos_iff.mpr hmem
    omega
  have hnotIn : ∀ {ids : List Nat}, ids.count id = 0 → id ∉ ids := fun hzero =>
    List.count_eq_zero.mp hzero
  rcases Nat.eq_zero_or_pos ((idsOf s.conns.clients).count id + (idsOf s.conns.servers).count id)
    with hnone | hsome
  · rcases Nat.eq_zero_or_pos ((s.conns.inUse.map Token.id).count id) with hfree | hheld
    · -- it has been removed
      refine .removed ?_ (hnotHeld hfree) (unfiled_of_count hnone)
      rcases Nat.eq_zero_or_pos (s.conns.disconnected.count id) with hzero | hpos
      · exact Or.inr (List.count_pos_iff.mp (by omega))
      · exact Or.inl (List.count_pos_iff.mp hpos)
    · -- a step has it
      have hlength : ((tokensOf l).filter fun token => token.id = id).length = 1 := by
        rw [filter_id]
        omega
      obtain ⟨token, htoken⟩ := List.length_eq_one_iff.mp hlength
      have hmem : token ∈ (tokensOf l).filter fun token => token.id = id := by
        rw [htoken]
        exact List.mem_cons_self
      obtain ⟨hlive, heq⟩ := List.mem_filter.mp hmem
      obtain rfl := of_decide_eq_true heq
      obtain ⟨hside, hname⟩ := h.labelled.held token (h.tokens.mem_iff.mp hlive)
      exact .checkedOut token htoken hside.symm hname.symm (unfiled_of_count hnone)
        (hnotIn (by omega)) (hnotIn (by omega))
  · -- it is in its map
    have hfiled : s.conns.Filed id := by
      rcases Nat.eq_zero_or_pos ((idsOf s.conns.clients).count id) with hzero | hpos
      · have hserver : 0 < (idsOf s.conns.servers).count id := by omega
        exact @Labelled.filed_of_mem _ h.labelled .server id (List.count_pos_iff.mp hserver)
      · exact @Labelled.filed_of_mem _ h.labelled .client id (List.count_pos_iff.mp hpos)
    exact .filed hfiled (hnotHeld (by omega)) (hnotIn (by omega)) (hnotIn (by omega))

/-! ## Runs -/

/-- No step runs `cleanup`. -/
theorem cleaned_preserves (cleaned : List Nat) :
    Preserves (machine S) (Genuine S false steps) fun s => s.conns.cleaned = cleaned := by
  refine preserves_of ?_ ?_ ?_
  · intro held a s s' rest h ha hcleaned
    cases (exec_effect h ha).moves with
    | stays h => exact h.cleaned.trans hcleaned
    | opens side l conn _ _ _ hc =>
      rw [hc]
      exact (Connections.setTable_cleaned ..).trans hcleaned
    | takes side l kind token _ htake =>
      rw [(Connections.take_eq_some htake).2.2.2]
      exact (Connections.setTable_cleaned ..).trans hcleaned
    | disconnects l id _ hdisconnect =>
      rw [(Connections.disconnect_eq_some hdisconnect).2]
      exact hcleaned
    | drains side order hact _ _ =>
      -- only `cleanup` drains, which is no step's
      subst hact
      exact absurd ha Bool.false_ne_true
  · intro a s hcleaned
    cases a with
    | checkedOut token => exact (Connections.setTable_cleaned ..).trans hcleaned
    | _ => exact hcleaned
  · intro s s' h hcleaned
    rw [ambient_conns h]
    exact hcleaned

/-- Custody and names hold throughout a run. -/
theorem run_apart {c : Prog} {s : State}
    (h : Scope.Reaches ((machine S).when Free) (run S, .initial) (c, s)) :
    Custody (live c) s ∧ Apart s.conns := by
  have hinitial : Apart State.initial.conns := ⟨fun side => by cases side <;> exact .nil, rfl⟩
  exact (apart_keeps.reaches h (Code.genuine run_code) (Code.fresh run_code).later
    ⟨custody_initial rfl, hinitial⟩).2

/-- **No connection is lost or shared**, in runs in which connections are inserted under names that
are free: at every moment each is in its map under its name, or held by one step under way, or has
been removed. A `parallel` step, wherever and whenever it starts, leaves each of them in its map,
or with a step that is under way beside it, or disconnected, if it had not been cleaned up. -/
theorem connections_kept {c : Prog} {s : State}
    (h : Scope.Reaches ((machine S).when Free) (run S, .initial) (c, s)) :
    (∀ id < s.conns.next, Kept (tokensOf (live c)) s.conns id) ∧
    ∀ idx step c' s', step.kind = .parallel →
      Scope.ReachesIn ((machine S).when Free) [] (runStep idx step, s) (c', s') →
      (∀ id < s'.conns.next, Kept (tokensOf (live c' ++ live c)) s'.conns id) ∧
      (Finished c' → ∀ id < s'.conns.next, s'.conns.Filed id ∨
        (∃ token ∈ tokensOf (live c), token.id = id) ∨
        id ∈ s'.conns.disconnected ∨ id ∈ s.conns.cleaned) := by
  obtain ⟨hcustody, hapart⟩ := run_apart h
  refine ⟨fun id hid => hcustody.kept hapart hid, ?_⟩
  intro idx step c' s' _ hstep
  have hcode : (runStep idx step).All (Code S false [step]) :=
    runStep_code (Within.of_root List.mem_cons_self)
  -- the step holds nothing yet, so the others hold what there is to hold
  have hstart : Custody (live (runStep idx step) ++ live c) s :=
    hcustody.of_same (by rw [tokensOf_append, tokensOf_code hcode, List.nil_append]) rfl
  have hkeeps : Keeps ((machine S).when Free) (Genuine S false [step]) Fresh
      fun l s => Custody l s ∧ Apart s.conns := apart_keeps
  obtain ⟨-, hcustody', hapart'⟩ := @Keeps.reachesBeside _ _ _ _ _ _ _ hkeeps [] (live c) _ _
    hstep (Code.genuine hcode) (Code.fresh hcode).later ⟨hstart, hapart⟩
  have hkept : ∀ id < s'.conns.next, Kept (tokensOf (live c' ++ live c)) s'.conns id :=
    fun id hid => hcustody'.kept hapart' hid
  refine ⟨hkept, ?_⟩
  intro hfinished id hid
  -- what was cleaned up before the step is all that is
  have hcleaned := ((cleaned_preserves s.conns.cleaned).reachesIn hstep.of_when
    (Code.genuine hcode) rfl).2
  rw [← hcleaned]
  cases hkept id hid with
  | filed hfiled _ _ _ => exact Or.inl hfiled
  | checkedOut token htoken _ _ _ _ _ =>
    have hmem : token ∈ (tokensOf (live c' ++ live c)).filter fun token => token.id = id := by
      rw [htoken]
      exact List.mem_cons_self
    obtain ⟨hmem, hid⟩ := List.mem_filter.mp hmem
    -- the step is over, so a token is one of the steps beside it
    rw [hfinished.live, List.nil_append] at hmem
    exact Or.inr (Or.inl ⟨token, hmem, of_decide_eq_true hid⟩)
  | removed hremoved _ _ => exact Or.inr (Or.inr hremoved)

/-! ## A branch that connects -/

/-- A `parallel` step with one branch, that connects `n` times. -/
def connecting (n : Nat) : Loader.StepDef := plainStep .parallel
  [("branches", .array [.array (List.replicate n (.object [("kind", .string "connect")]))])]

def connectingScenario (n : Nat) : Loader.Scenario where
  name := "t"
  targetAddress := some "localhost:3001"
  network := none
  steps := [connecting n]

/-- The names in a branch are not looked at. -/
theorem connectingScenario_accepted {n : Nat}
    (hparse : Loader.stepsOf (.array (List.replicate n (.object [("kind", .string "connect")]))) =
      some (List.replicate n connectStep)) :
    Loader.Accepted (fun _ => "") (connectingScenario n) := by
  -- each step is well formed by itself
  have hbody : ∀ i, Loader.validateSteps (fun _ => "") i (List.replicate n connectStep) false =
      .ok ([], false) := by
    intro i
    clear hparse
    induction n generalizing i with
    | zero => rw [List.replicate_zero, Loader.validateSteps]
    | succ n ih => exact validateSteps_leaf rfl (by decide) rfl rfl (ih (i + 1))
  -- none of them names a peer
  have hwalk : ∀ i, Loader.walkAsPeerRefs none i (List.replicate n connectStep) = [] := by
    intro i
    clear hparse hbody
    induction n generalizing i with
    | zero => rw [List.replicate_zero, Loader.walkAsPeerRefs]
    | succ n ih =>
      rw [List.replicate_succ, walkAsPeerRefs_plain rfl]
      exact ih (i + 1)
  have hsteps : Loader.validateSteps (fun _ => "") 0 (connectingScenario n).steps false =
      .ok ([], false) := by
    rw [connectingScenario, Loader.validateSteps, Loader.validateStep_parallel rfl rfl]
    refine Loader.Checked.andThen_clean.mpr ⟨false, ?_, by rw [Loader.validateSteps]⟩
    refine Loader.Checked.andThen_clean.mpr ⟨false, rfl, ?_⟩
    rw [Loader.validateBranches_cons hparse]
    exact Loader.Checked.andThen_clean.mpr ⟨false, hbody 0, by rw [Loader.validateBranches]⟩
  have hpeers : Loader.walkAsPeerRefs none 0 (connectingScenario n).steps = [] := by
    have hnone : (connecting n).bodySteps = [] := rfl
    have hbranches : (connecting n).branchSteps = [List.replicate n connectStep] := by
      show (Loader.branchesOf (.array [.array _])).getD [] = _
      simp only [Loader.branchesOf, Value.asVec, List.mapM_cons, List.mapM_nil, hparse]
      rfl
    rw [connectingScenario, Loader.walkAsPeerRefs, hnone, hbranches, Loader.walkAsPeerRefs,
      Loader.walkAsPeerBranches, hwalk, Loader.walkAsPeerBranches, Loader.walkAsPeerRefs]
    rfl
  exact Loader.accepted_iff.mpr ⟨rfl, ⟨false, hsteps⟩, rfl,
    Loader.errorIf_eq_nil.mpr (Bool.and_false _), rfl, hpeers⟩

section

variable {held : List Action} {c c' : Prog} {s s' : State}

theorem ComesTo.par (h : ComesTo S held c s .done s') : ComesTo S held (.par [c]) s .done s' := by
  have hinside : ComesTo S held (.par [c]) s (.par [.done]) s' := by
    intro t ht
    obtain ⟨t', ht', hreach⟩ := h t ht
    exact ⟨t', ht', @Scope.ReachesIn.inBranch _ _ _ _ _ [] [] _ _ _ _ (by simp) hreach⟩
  refine hinside.trans fun t ht => ⟨t, ht, .single (.parDone ?_)⟩
  intro d hd
  exact List.mem_singleton.mp hd

end

/-- The connections of the branch, one after the other. -/
def connected : Nat → State → State
  | 0, s => s
  | n + 1, s => connected n { s with
      dialed := s.dialed ++ [⟨connectStep, default, "localhost:3001"⟩]
      conns := s.conns.openAs .client connectStep (.opened "default") }

theorem branchSteps_connected {n m bi si : Nat} {held : List Action} {s : State} :
    ComesTo (bareSetting (connectingScenario m)) held
      (branchSteps bi si (List.replicate n connectStep)) s .done (connected n s) := by
  have hconnect : Literal connectStep .connect default := ⟨rfl, rfl, rfl, fun _ => rfl⟩
  induction n generalizing si s with
  | zero => exact emit_comesTo
  | succ n ih => exact .bind (hconnect.comesTo connect_comesTo) ih

/-- The step runs, and comes to its end. -/
theorem connecting_comesTo {n : Nat}
    (hparse : Loader.stepsOf (.array (List.replicate n (.object [("kind", .string "connect")]))) =
      some (List.replicate n connectStep)) :
    ComesTo (bareSetting (connectingScenario n)) [] (run (bareSetting (connectingScenario n)))
      .initial (runSteps 1 [])
      (connected n { State.initial with net := { State.initial.net with currentSlot := none } }) := by
  have hbranches : Loader.branchesOf
      (.array [.array (List.replicate n (.object [("kind", .string "connect")]))]) =
        some [List.replicate n connectStep] := by
    simp only [Loader.branchesOf, Value.asVec, List.mapM_cons, List.mapM_nil, hparse]
    rfl
  have hsub : ∀ vars, substituteInValue (substituted (connecting n)) vars = .ok (.object [], []) :=
    fun _ => rfl
  refine .bind (prelude_comesTo rfl rfl) (runSteps_comesTo (runStep_comesTo (hsub _) rfl ?_) .refl)
  show ComesTo _ [] (executeParallel (connecting n)) _ _ _
  have hget : (connecting n).get "branches" =
      some (.array [.array (List.replicate n (.object [("kind", .string "connect")]))]) := rfl
  unfold executeParallel
  rw [hget]
  dsimp only
  rw [hbranches]
  exact .bind emit_comesTo (.bind (ComesTo.par (.bind emit_comesTo branchSteps_connected))
    emit_comesTo)

/-- **The second connection takes the place of the first**, which is in no map when the step has
come to its end. -/
theorem connection_overwritten : Loader.Accepted (fun _ => "") (connectingScenario 2) ∧
    ∃ s, Scope.Reaches (machine (bareSetting (connectingScenario 2)))
      (run (bareSetting (connectingScenario 2)), .initial) (runSteps 1 [], s) ∧
        ∃ id < s.conns.next, ¬ Kept (tokensOf (live (runSteps 1 []))) s.conns id := by
  obtain ⟨t, -, hreach⟩ := (@connecting_comesTo 2 rfl).reaches
  refine ⟨connectingScenario_accepted rfl, _, hreach, 0, Nat.zero_lt_two, ?_⟩
  intro hkept
  cases hkept with
  | filed h _ _ _ =>
    have hfound : some 1 = some 0 := h
    exact nomatch hfound
  | checkedOut token h _ _ _ _ _ => exact nomatch h
  | removed h _ _ => exact h.elim (fun h => nomatch h) fun h => nomatch h

/-- The number of connections that have been inserted does not decrease. -/
theorem next_preserves (n : Nat) :
    Preserves (machine S) (Genuine S frame steps) fun s => n ≤ s.conns.next := by
  refine preserves_of ?_ ?_ ?_
  · intro held a s s' rest h ha hn
    cases (exec_effect h ha).moves with
    | stays h => exact h.next.symm ▸ hn
    | opens side l conn _ _ _ hc =>
      rw [hc]
      exact Nat.le_succ_of_le hn
    | takes side l kind token _ htake =>
      rw [(Connections.take_eq_some htake).2.2.2]
      exact hn.trans (Connections.setTable_next ..).ge
    | disconnects l id _ hdisconnect =>
      rw [(Connections.disconnect_eq_some hdisconnect).2]
      exact hn
    | drains side order _ _ hc =>
      rw [hc]
      exact hn.trans (Connections.setTable_next ..).ge
  · intro a s hn
    cases a with
    | checkedOut token => exact hn.trans (Connections.setTable_next ..).ge
    | _ => exact hn
  · intro s s' h hn
    rw [ambient_conns h]
    exact hn

/-- Where there is no connection, every name is free. -/
theorem Custody.all_free {l : List Action} {s : State} (h : Custody l s) (hnone : s.conns.next = 0)
    (a : Action) : Free a s := by
  cases a with
  | openConnection side leaf =>
    have hplaces := h.places
    rw [hnone, List.range_zero] at hplaces
    have hempty := hplaces.eq_nil
    simp only [Connections.places, List.append_eq_nil_iff, List.map_eq_nil_iff] at hempty
    obtain ⟨hclients, hservers, hinUse, -⟩ := hempty
    refine ⟨?_, ?_⟩
    · intro hmem
      obtain ⟨id, hlookup⟩ := Option.isSome_iff_exists.mp (AList.lookup_isSome.mpr hmem)
      have hids : id ∈ idsOf (s.conns.table side) := mem_valuesOf.mpr ⟨leaf.asName, hlookup⟩
      cases side with
      | client => exact List.not_mem_nil (hclients ▸ hids)
      | server => exact List.not_mem_nil (hservers ▸ hids)
    · intro token htoken
      rw [hinUse] at htoken
      cases htoken
  | _ => trivial

/-- A run in which at most one connection is inserted inserts it under a name that is free. -/
theorem single_free {c : Prog} {s : State}
    (h : Scope.Reaches (machine S) (run S, .initial) (c, s)) (hsingle : s.conns.next ≤ 1) :
    Scope.Reaches ((machine S).when Free) (run S, .initial) (c, s) := by
  have hcode : (run S).All (Code S true S.scenario.steps) := run_code
  refine @Keeps.reaches_when _ _ _ _ _ _ _ custody_keeps Free (fun s => s.conns.next ≤ 1) ?_ ?_ _ _
    h (Code.genuine hcode) (Code.fresh hcode).later (custody_initial rfl) hsingle
  · intro held others a s s' rest hexec ha hcustody hnext
    cases a with
    | openConnection side l =>
      obtain ⟨rfl, -⟩ := hexec
      have hinserted : s.conns.next + 1 ≤ 1 := hnext
      exact hcustody.all_free (by omega) _
    | _ => trivial
  · intro c c' s s' hall hstep hnext
    have hgrows := ((next_preserves s.conns.next).step hstep hall (Nat.le_refl _)).2
    exact hgrows.trans hnext

theorem connections_kept_connected : ∃ s : State, s.conns.next = 1 ∧
    ∀ id < s.conns.next, Kept [] s.conns id := by
  obtain ⟨t, -, hreach⟩ := (@connecting_comesTo 1 rfl).reaches
  have hfree := single_free hreach (Nat.le_refl 1)
  exact ⟨_, rfl, (connections_kept hfree).1⟩

end ConformanceHarness.Concurrent
