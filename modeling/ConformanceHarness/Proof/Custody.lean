import ConformanceHarness.Lib.Tables
import ConformanceHarness.Proof.StepEffects

/-!
# Where the connections are

A connection that has been inserted is in its map, or a step has checked it out, or it has been
removed, or another one was inserted under its name while it was there. Nothing else happens to a
connection, whatever fails, and in whatever order the branches run: this is `Custody`.
-/

namespace ConformanceHarness.Concurrent

open ConformanceHarness.Lib
open ConformanceHarness.Lib.Scope (Finished live seq)
open ConformanceHarness.Proof
open ConformanceHarness.Runner (LeafKind)

variable {S : Setting} {frame : Bool} {steps : List Loader.StepDef}

/-! ## Places -/

section

/-- The places a connection can be in, as the numbers of the connections there. -/
def Connections.places (c : Connections) : List Nat :=
  idsOf c.clients ++ (idsOf c.servers ++ (c.inUse.map Token.id ++
    (c.overwritten ++ (c.disconnected ++ c.cleaned))))

variable {c c' : Connections} {side : Side} {name : String} {id : Nat} {token : Token}

/-- Another table for a side. -/
theorem count_setTable (c : Connections) (side : Side) (table : Table) (x : Nat) :
    (c.setTable side table).places.count x + (idsOf (c.table side)).count x =
      c.places.count x + (idsOf table).count x := by
  cases side <;>
  · simp only [Connections.places, Connections.setTable, Connections.table, List.count_append]
    omega

theorem count_insert (table : Table) (name : String) (id x : Nat) :
    (idsOf (table.insert name id)).count x + (table.lookup name).toList.count x =
      [id].count x + (idsOf table).count x := by
  have h := (valuesOf_insert table name id).count_eq x
  rw [List.count_append, ← List.singleton_append, List.count_append] at h
  exact h

theorem count_erase {table : Table} (h : table.lookup name = some id) (x : Nat) :
    (idsOf table).count x = [id].count x + (idsOf (table.erase name)).count x := by
  have h := (valuesOf_erase h).count_eq x
  rw [← List.singleton_append, List.count_append] at h
  exact h

/-- A connection is inserted. -/
theorem places_insertAs (c : Connections) (side : Side) (name : String) (id : Nat) :
    (c.insertAs side name id).places.Perm (id :: c.places) := by
  refine List.perm_iff_count.mpr fun x => ?_
  have htable := count_setTable c side ((c.table side).insert name id) x
  have hinsert := count_insert (c.table side) name id x
  rw [← List.singleton_append, List.count_append]
  simp only [Connections.places, Connections.insertAs, Connections.setTable_inUse,
    Connections.setTable_overwritten, Connections.setTable_disconnected,
    Connections.setTable_cleaned, List.count_append] at htable ⊢
  omega

theorem places_openAs (c : Connections) (side : Side) (step : Loader.StepDef) (conn : Connection) :
    (c.openAs side step conn).places.Perm (c.next :: c.places) :=
  places_insertAs c side conn.name c.next

theorem places_take (h : c.take side name = some (token, c')) : c'.places.Perm c.places := by
  obtain ⟨hlookup, -, -, rfl⟩ := Connections.take_eq_some h
  refine List.perm_iff_count.mpr fun x => ?_
  have htable := count_setTable c side ((c.table side).erase name) x
  have herase := count_erase hlookup x
  simp only [Connections.places, Connections.setTable_inUse, Connections.setTable_overwritten,
    Connections.setTable_disconnected, Connections.setTable_cleaned, List.count_append,
    List.map_cons, List.count_cons, List.count_nil] at htable herase ⊢
  omega

theorem places_putBack (h : token ∈ c.inUse) : (c.putBack token).places.Perm c.places := by
  refine List.perm_iff_count.mpr fun x => ?_
  have hinsert := (places_insertAs c token.side token.name token.id).count_eq x
  have hheld := ((List.perm_cons_erase h).map Token.id).count_eq x
  simp only [Connections.places, Connections.putBack, Connections.insertAs,
    Connections.setTable_inUse, Connections.setTable_disconnected, Connections.setTable_cleaned,
    List.count_append, List.map_cons, List.count_cons] at hinsert hheld ⊢
  omega

theorem places_disconnect {step : Loader.StepDef}
    (h : c.disconnect step name = some (id, c')) : c'.places.Perm c.places := by
  obtain ⟨hlookup, rfl⟩ := Connections.disconnect_eq_some h
  refine List.perm_iff_count.mpr fun x => ?_
  have herase := count_erase hlookup x
  simp only [Connections.places, Connections.update, List.count_append] at herase ⊢
  omega

theorem places_drain {order : List (String × Nat)}
    (h : order.Perm ((c.table side).entries.map fun e => (e.1, e.2))) :
    (c.drain side order).places.Perm c.places := by
  refine List.perm_iff_count.mpr fun x => ?_
  have htable := count_setTable c side ∅ x
  have horder := (h.map Prod.snd).count_eq x
  rw [List.map_map] at horder
  have hempty : (idsOf (∅ : Table)).count x = 0 := rfl
  have hids : (idsOf (c.table side)).count x =
      (((c.table side).entries.map (Prod.snd ∘ fun e => (e.1, e.2))).count x) := rfl
  simp only [Connections.places, Connections.drain, Connections.setTable_inUse,
    Connections.setTable_overwritten, Connections.setTable_disconnected,
    Connections.setTable_cleaned, List.count_append] at htable ⊢
  omega

/-! ## Names -/

/-- What is in a map or held has the name it is there under. -/
structure Labelled (c : Connections) : Prop where
  filed : ∀ side name id, (c.table side).lookup name = some id →
    (c.connection id).side = side ∧ (c.connection id).name = name
  held : ∀ token ∈ c.inUse,
    (c.connection token.id).side = token.side ∧ (c.connection token.id).name = token.name

/-- The connections stay what they are, and none comes in. -/
theorem Labelled.less (h : Labelled c)
    (hconn : ∀ id, (c'.connection id).side = (c.connection id).side ∧
      (c'.connection id).name = (c.connection id).name)
    (htable : ∀ side name id, (c'.table side).lookup name = some id →
      (c.table side).lookup name = some id)
    (hheld : ∀ token ∈ c'.inUse, token ∈ c.inUse) : Labelled c' := by
  refine ⟨?_, ?_⟩
  · intro side name id hlookup
    rw [(hconn id).1, (hconn id).2]
    exact h.filed side name id (htable side name id hlookup)
  · intro token htoken
    rw [(hconn token.id).1, (hconn token.id).2]
    exact h.held token (hheld token htoken)

/-- A connection that is changed stays what it is. -/
theorem update_labels {f : Connection → Connection}
    (hf : ∀ conn, (f conn).side = conn.side ∧ (f conn).name = conn.name) (c : Connections)
    (id other : Nat) : ((c.update id f).connection other).side = (c.connection other).side ∧
      ((c.update id f).connection other).name = (c.connection other).name := by
  show (Function.update c.connection id _ other).side = _ ∧
    (Function.update c.connection id _ other).name = _
  by_cases hid : other = id
  · subst hid
    rw [Function.update_self]
    exact hf _
  · rw [Function.update_of_ne hid]
    exact ⟨rfl, rfl⟩

theorem lookup_of_erase {table : Table} {other : String}
    (h : (table.erase name).lookup other = some id) : table.lookup other = some id := by
  by_cases hkey : other = name
  · subst hkey
    rw [AList.lookup_erase] at h
    exact nomatch h
  · rwa [AList.lookup_erase_ne hkey] at h

/-- A table from which entries have been taken. -/
theorem lookup_of_setTable {table : Table}
    (hless : ∀ name id, table.lookup name = some id → (c.table side).lookup name = some id) :
    ∀ side' name id, ((c.setTable side table).table side').lookup name = some id →
      (c.table side').lookup name = some id := by
  intro side' name id hlookup
  by_cases hsame : side' = side
  · subst hsame
    rw [Connections.setTable_table] at hlookup
    exact hless name id hlookup
  · rwa [Connections.setTable_other _ _ _ hsame] at hlookup

theorem Labelled.take (h : Labelled c) (htake : c.take side name = some (token, c')) :
    Labelled c' := by
  obtain ⟨hlookup, hside, hname, rfl⟩ := Connections.take_eq_some htake
  have hconn : (c.setTable side ((c.table side).erase name)).connection = c.connection :=
    Connections.setTable_connection ..
  have hless := @lookup_of_setTable c side ((c.table side).erase name) fun _ _ => lookup_of_erase
  refine ⟨?_, ?_⟩
  · intro side' name' id' hlookup'
    rw [hconn]
    refine h.filed side' name' id' (hless side' name' id' ?_)
    cases side' <;> exact hlookup'
  · intro other hother
    rw [hconn]
    rcases List.mem_cons.mp hother with rfl | hother
    · rw [hside, hname]
      exact h.filed side name other.id hlookup
    · exact h.held other hother

/-- A connection that is inserted under its name. -/
theorem Labelled.insert (h : Labelled c) (hside : (c.connection id).side = side)
    (hname : (c.connection id).name = name) :
    ∀ side' name' id', ((c.insertAs side name id).table side').lookup name' = some id' →
      (c.connection id').side = side' ∧ (c.connection id').name = name' := by
  intro side' name' id' hlookup
  have htable : (c.insertAs side name id).table side' =
      (c.setTable side ((c.table side).insert name id)).table side' := by
    cases side' <;> rfl
  rw [htable] at hlookup
  by_cases hsame : side' = side
  · subst hsame
    rw [Connections.setTable_table] at hlookup
    by_cases hkey : name' = name
    · subst hkey
      rw [AList.lookup_insert] at hlookup
      obtain rfl := Option.some.inj hlookup
      exact ⟨hside, hname⟩
    · rw [AList.lookup_insert_ne hkey] at hlookup
      exact h.filed side' name' id' hlookup
  · rw [Connections.setTable_other _ _ _ hsame] at hlookup
    exact h.filed side' name' id' hlookup

theorem Labelled.putBack (h : Labelled c) (htoken : token ∈ c.inUse) :
    Labelled (c.putBack token) := by
  have hconn : (c.putBack token).connection = c.connection := Connections.setTable_connection ..
  obtain ⟨hside, hname⟩ := h.held token htoken
  refine ⟨?_, ?_⟩
  · intro side' name' id' hlookup
    rw [hconn]
    refine h.insert hside hname side' name' id' ?_
    cases side' <;> exact hlookup
  · intro other hother
    rw [hconn]
    exact h.held other (List.mem_of_mem_erase hother)

/-- A new connection. -/
theorem Labelled.openAs {step : Loader.StepDef} {conn : Connection} (h : Labelled c)
    (hfresh : c.next ∉ c.places) (hside : conn.side = side) :
    Labelled (c.openAs side step conn) := by
  let c₁ : Connections := { c with connection := Function.update c.connection c.next conn }
  -- the number is fresh, so no connection there is changes
  have hother : ∀ id ∈ c.places, c₁.connection id = c.connection id := by
    intro id hid
    refine Function.update_of_ne ?_ _ _
    rintro rfl
    exact hfresh hid
  have hnew : c₁.connection c.next = conn := Function.update_self ..
  -- before it is filed the new connection is in no table
  have h₁ : Labelled c₁ := by
    refine ⟨?_, ?_⟩
    · intro side' name id hlookup
      have hids : id ∈ idsOf (c.table side') := mem_valuesOf.mpr ⟨name, hlookup⟩
      rw [hother id ?_]
      · exact h.filed side' name id hlookup
      · simp only [Connections.places, List.mem_append]
        cases side' with
        | client => exact Or.inl hids
        | server => exact Or.inr (Or.inl hids)
    · intro token htoken
      rw [hother token.id ?_]
      · exact h.held token htoken
      · have hheld : token.id ∈ c.inUse.map Token.id := List.mem_map_of_mem htoken
        simp only [Connections.places, List.mem_append]
        exact Or.inr (Or.inr (Or.inl hheld))
  refine ⟨?_, ?_⟩
  · intro side' name id hlookup
    -- it is filed under its own name, on its own side
    have hinsert := @Labelled.insert c₁ side conn.name c.next h₁
      ((congrArg Connection.side hnew).trans hside) (congrArg Connection.name hnew)
    refine hinsert side' name id ?_
    cases side <;> cases side' <;> exact hlookup
  · intro token htoken
    refine h₁.held token ?_
    cases side <;> exact htoken

end

/-! ## What an action moves -/

/-- Every connection stays where and what it is. -/
structure Stays (c c' : Connections) : Prop where
  clients : c'.clients = c.clients
  servers : c'.servers = c.servers
  inUse : c'.inUse = c.inUse
  overwritten : c'.overwritten = c.overwritten
  disconnected : c'.disconnected = c.disconnected
  cleaned : c'.cleaned = c.cleaned
  next : c'.next = c.next
  labels : ∀ id, (c'.connection id).side = (c.connection id).side ∧
    (c'.connection id).name = (c.connection id).name

/-- Where connections are after an action. -/
inductive Moves (a : Action) (c c' : Connections) : Prop where
  | stays (h : Stays c c')
  | opens (side : Side) (l : Leaf) (conn : Connection) (ha : a = .openConnection side l)
      (hside : conn.side = side) (hname : conn.name = l.asName)
      (hc : c' = c.openAs side l.step conn)
  | takes (side : Side) (l : Leaf) (kind : LeafKind) (token : Token) (ha : a = .take side l kind)
      (htake : c.take side l.onName = some (token, c'))
  | disconnects (l : Leaf) (id : Nat) (ha : a = .disconnect l)
      (hdisconnect : c.disconnect l.step l.onName = some (id, c'))
  | drains (side : Side) (order : List (String × Nat)) (ha : a = .drainTable side)
      (horder : order.Perm ((c.table side).entries.map fun e => (e.1, e.2)))
      (hc : c' = c.drain side order)

section

variable {held l : List Action} {a : Action} {s s' : State} {rest : Prog} {c c' : Connections}

theorem Stays.refl (c : Connections) : Stays c c :=
  ⟨rfl, rfl, rfl, rfl, rfl, rfl, rfl, fun _ => ⟨rfl, rfl⟩⟩

theorem Stays.update {f : Connection → Connection}
    (hf : ∀ conn, (f conn).side = conn.side ∧ (f conn).name = conn.name) (id : Nat) :
    Stays c (c.update id f) := ⟨rfl, rfl, rfl, rfl, rfl, rfl, rfl, update_labels hf c id⟩

theorem Use.labels {f : Connection → Connection} (h : Use f) (conn : Connection) :
    (f conn).side = conn.side ∧ (f conn).name = conn.name := by
  cases h <;> exact ⟨rfl, rfl⟩

theorem Effect.moves (h : Effect S frame steps held a s s' rest) : Moves a s.conns s'.conns := by
  have hsame : ∀ {c : Connections}, s'.conns = c → Stays s.conns c → Moves a s.conns s'.conns :=
    fun hconns hstays => .stays (hconns ▸ hstays)
  have hback : ∀ conn : Connection, conn.abort.side = conn.side ∧ conn.abort.name = conn.name :=
    fun _ => ⟨rfl, rfl⟩
  have hlabels : ∀ id, (s.conns.connection id).side = (s.conns.connection id).side ∧
      (s.conns.connection id).name = (s.conns.connection id).name := fun _ => ⟨rfl, rfl⟩
  cases h with
  | quiet _ h => exact hsame h.conns (.refl _)
  | requests _ _ _ h => exact hsame h.conns (.refl _)
  | grants _ _ _ _ _ _ _ _ hconns _ _ => exact hsame hconns (.refl _)
  | opens side l conn ha hside hname _ h => exact .opens side l conn ha hside hname h.conns
  | takes side l kind token ha htake _ _ _ => exact .takes side l kind token ha htake
  | uses token outer f _ _ huse h => exact hsame h.conns (.update huse.labels _)
  | startsWorkers token outer version _ _ _ _ h =>
    exact hsame h.conns (.update (Use.startWorkers version).labels _)
  | disconnects l id event conns ha hdisconnect h =>
    exact .disconnects l id ha (h.conns ▸ hdisconnect)
  | listens _ _ h => exact hsame h.conns ⟨rfl, rfl, rfl, rfl, rfl, rfl, rfl, hlabels⟩
  | unlistens _ _ _ _ h => exact hsame h.conns ⟨rfl, rfl, rfl, rfl, rfl, rfl, rfl, hlabels⟩
  | drains side order ha horder h => exact .drains side order ha horder h.conns
  | clears _ h => exact hsame h.conns ⟨rfl, rfl, rfl, rfl, rfl, rfl, rfl, hlabels⟩
  | closesNext _ _ _ _ _ _ h =>
    exact hsame h.conns ⟨rfl, rfl, rfl, rfl, rfl, rfl, rfl, update_labels hback _ _⟩

end

/-! ## Custody -/

/-- What is taken out is what the program holds, every connection is in one place, and it has the
name it is there under. -/
structure Custody (l : List Action) (s : State) : Prop where
  tokens : (tokensOf l).Perm s.conns.inUse
  places : s.conns.places.Perm (List.range s.conns.next)
  labelled : Labelled s.conns

section

variable {held l : List Action} {a : Action} {s s' : State} {rest : Prog} {c c' : Connections}

theorem Custody.of_same (h : Custody l s) {l' : List Action} (htokens : tokensOf l' = tokensOf l)
    (hconns : s'.conns = s.conns) : Custody l' s' :=
  ⟨by rw [htokens, hconns]; exact h.tokens, by rw [hconns]; exact h.places,
    by rw [hconns]; exact h.labelled⟩

/-- The number of a new connection is in no place. -/
theorem Custody.next_fresh (h : Custody l s) : s.conns.next ∉ s.conns.places := by
  intro hmem
  exact absurd (List.mem_range.mp (h.places.mem_iff.mp hmem)) (Nat.lt_irrefl _)

theorem tokensOf_code (h : rest.All (Code S frame steps)) : tokensOf (live rest) = [] :=
  tokensOf_fresh (Code.fresh h).live

theorem Waits.tokens {job : Job} (h : Waits S frame steps s job rest) :
    tokensOf (Scope.live rest) = [] := by
  rw [h.live]
  rfl

/-- What is left to do holds what the action has taken out. -/
theorem Effect.tokens (h : Effect S frame steps held a s s' rest)
    (htokens : (tokensOf (a :: l)).Perm s.conns.inUse) :
    (tokensOf (live rest ++ l)).Perm s'.conns.inUse := by
  -- nothing is taken out, and nothing given back
  have hnone : ∀ {c : Connections}, tokensOf (live rest) = [] → a.token = none →
      s'.conns = c → c.inUse = s.conns.inUse →
      (tokensOf (live rest ++ l)).Perm s'.conns.inUse := by
    intro c hrest ha hconns hinUse
    rw [tokensOf_append, hrest, List.nil_append, hconns, hinUse]
    rwa [tokensOf, List.filterMap_cons_none ha] at htokens
  cases h with
  | quiet ha h => exact hnone (tokensOf_code h.rest) ha.token h.conns rfl
  | requests job ha _ h => exact hnone h.rest.tokens ha.token h.conns rfl
  | grants ticket job w queue written ha _ _ hconns _ hrest =>
    subst ha
    exact hnone (tokensOf_code hrest) rfl hconns rfl
  | opens side l conn ha _ _ _ h =>
    subst ha
    exact hnone (tokensOf_code h.rest) rfl h.conns (Connections.setTable_inUse ..)
  | takes side l kind token ha htake _ hrest hbody =>
    -- the token leaves the table for the body that is left to do
    subst ha hrest
    obtain ⟨-, -, -, hconns⟩ := Connections.take_eq_some htake
    rw [tokensOf_append, live, hconns]
    rw [show tokensOf (.checkedOut token :: live (withConnection l kind)) =
      token :: tokensOf (live (withConnection l kind)) from rfl, tokensOf_code hbody]
    exact htokens.cons token
  | uses token outer f ha _ _ h => exact hnone (tokensOf_code h.rest) ha.token h.conns rfl
  | startsWorkers token outer version job ha _ _ h => exact hnone h.rest.tokens ha.token h.conns rfl
  | disconnects l id event conns ha hdisconnect h =>
    subst ha
    obtain ⟨-, rfl⟩ := Connections.disconnect_eq_some hdisconnect
    exact hnone h.rest.tokens rfl h.conns rfl
  | listens l ha h =>
    subst ha
    exact hnone (tokensOf_code h.rest) rfl h.conns rfl
  | unlistens l job ha _ h =>
    subst ha
    exact hnone h.rest.tokens rfl h.conns rfl
  | drains side order ha _ h =>
    subst ha
    exact hnone (tokensOf_code h.rest) rfl h.conns (Connections.setTable_inUse ..)
  | clears ha h =>
    subst ha
    exact hnone (tokensOf_code h.rest) rfl h.conns rfl
  | closesNext name id more event ha _ h =>
    subst ha
    exact hnone h.rest.tokens rfl h.conns rfl

theorem Stays.places (h : Stays c c') : c'.places = c.places := by
  rw [Connections.places, h.clients, h.servers, h.inUse, h.overwritten, h.disconnected, h.cleaned]
  rfl

theorem Stays.table (h : Stays c c') (side : Side) : c'.table side = c.table side := by
  cases side with
  | client => exact h.clients
  | server => exact h.servers

/-- An insertion is the only change of which connections there are. -/
theorem Moves.places (h : Moves a c c') (hplaces : c.places.Perm (List.range c.next)) :
    c'.places.Perm (List.range c'.next) := by
  cases h with
  | stays h =>
    rw [h.places, h.next]
    exact hplaces
  | opens side l conn _ _ _ hc =>
    -- the new number is the next of the range
    subst hc
    refine (places_openAs c side l.step conn).trans ?_
    show (c.next :: c.places).Perm (List.range (c.next + 1))
    rw [List.range_succ]
    exact (hplaces.cons _).trans (List.perm_append_singleton _ _).symm
  | takes side l kind token _ htake =>
    -- a connection that changes its place keeps its number
    have hnext : c'.next = c.next := by
      rw [(Connections.take_eq_some htake).2.2.2]
      exact Connections.setTable_next ..
    rw [hnext]
    exact (places_take htake).trans hplaces
  | disconnects l id _ hdisconnect =>
    have hnext : c'.next = c.next := by
      rw [(Connections.disconnect_eq_some hdisconnect).2]
      rfl
    rw [hnext]
    exact (places_disconnect hdisconnect).trans hplaces
  | drains side order _ horder hc =>
    subst hc
    have hnext : (c.drain side order).next = c.next := Connections.setTable_next ..
    rw [hnext]
    exact (places_drain horder).trans hplaces

theorem Moves.labelled (h : Moves a c c') (hlabelled : Labelled c) (hfresh : c.next ∉ c.places) :
    Labelled c' := by
  cases h with
  | stays h =>
    refine hlabelled.less h.labels ?_ ?_
    · intro side name id hlookup
      rwa [h.table] at hlookup
    · intro token htoken
      rwa [h.inUse] at htoken
  | opens side l conn _ hside _ hc =>
    subst hc
    exact hlabelled.openAs hfresh hside
  | takes side l kind token _ htake => exact hlabelled.take htake
  | disconnects l id _ hdisconnect =>
    obtain ⟨-, rfl⟩ := Connections.disconnect_eq_some hdisconnect
    -- aborting its workers does not rename a connection
    have hback : ∀ conn : Connection, conn.abort.side = conn.side ∧ conn.abort.name = conn.name :=
      fun _ => ⟨rfl, rfl⟩
    refine hlabelled.less (update_labels hback c id) ?_ fun _ hheld => hheld
    intro side name other hlookup
    cases side with
    | client => exact lookup_of_erase hlookup
    | server => exact hlookup
  | drains side order _ _ hc =>
    subst hc
    -- a table that has been drained files nothing
    have hnone : ∀ name id, (∅ : Table).lookup name = some id →
        (c.table side).lookup name = some id := fun _ _ h => nomatch h
    refine hlabelled.less ?_ ?_ ?_
    · intro id
      cases side <;> exact ⟨rfl, rfl⟩
    · intro side' name id hlookup
      refine lookup_of_setTable hnone side' name id ?_
      cases side <;> cases side' <;> exact hlookup
    · intro token htoken
      cases side <;> exact htoken

/-- A token that is held has been checked out. -/
theorem Custody.mem_inUse {token : Token} (h : Custody (.checkedOut token :: l) s) :
    token ∈ s.conns.inUse := h.tokens.mem_iff.mp List.mem_cons_self

/-- What is dropped is put back. -/
theorem Custody.drop (h : Custody (a :: l) s) : Custody l (drop a s) := by
  cases a with
  | checkedOut token =>
    refine ⟨?_, ?_, h.labelled.putBack h.mem_inUse⟩
    · have htokens := h.tokens.erase token
      rwa [show tokensOf (.checkedOut token :: l) = token :: tokensOf l from rfl,
        List.erase_cons_head] at htokens
    · have hnext : (s.conns.putBack token).next = s.conns.next := Connections.setTable_next ..
      show (s.conns.putBack token).places.Perm (List.range (s.conns.putBack token).next)
      rw [hnext]
      exact (places_putBack h.mem_inUse).trans h.places
  | _ => exact h.of_same rfl rfl

theorem Custody.perm {l' : List Action} (hperm : l.Perm l') (h : Custody l s) : Custody l' s :=
  ⟨(hperm.symm.filterMap _).trans h.tokens, h.places, h.labelled⟩

theorem Custody.start (hfresh : Fresh a) (h : Custody l s) : Custody (a :: l) s :=
  h.of_same (List.filterMap_cons_none hfresh.token) rfl

theorem Custody.ambient (hambient : Ambient s s') (h : Custody l s) : Custody l s' :=
  h.of_same rfl (ambient_conns hambient)

/-- **Custody is kept**, whatever happens. -/
theorem custody_keeps : Keeps (machine S) (Genuine S frame steps) Fresh Custody where
  perm := Custody.perm
  exec := by
    intro held others a s s' rest h ha hcustody
    have heffect := exec_effect h ha
    exact ⟨heffect.tokens hcustody.tokens, heffect.moves.places hcustody.places,
      heffect.moves.labelled hcustody.labelled hcustody.next_fresh⟩
  leaves := fun h ha => (exec_effect h ha).leaves
  start := Custody.start
  drop := Custody.drop
  ambient := Custody.ambient

theorem custody_initial (h : tokensOf l = []) : Custody l .initial := by
  refine ⟨?_, .refl _, ⟨?_, ?_⟩⟩
  · rw [h]
    exact .refl _
  · intro side name id hlookup
    cases side <;> exact nomatch hlookup
  · intro token htoken
    exact nomatch htoken

end

end ConformanceHarness.Concurrent
