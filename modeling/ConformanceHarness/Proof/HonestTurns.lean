import ConformanceHarness.Proof.FixtureServing

/-!
# The turns of an honest Chain-Sync session

Under the generated script a session takes one turn for each request: it answers, moves its
cursor and counts. Where the client's points are on the chain it serves what comes after the first
of them, header by header, and tells the client to wait after the last one. Where none of them is,
it tells the client to wait at once.
-/

namespace ConformanceHarness

open ConformanceHarness.Lib (Prog)
open Session

/-- What a server offers to a client with these points, from the point that it finds: the entries
after that point. -/
inductive Joined (chain : FixtureChain) (points : List Point) :
    Option Point → List FixtureEntry → Prop where
  | found {p : Point} {k : Nat} (h : FirstOccurrence chain points p k) :
      Joined chain points (some p) (chain.entries.drop k)
  | notFound (h : NoOccurrence chain points) : Joined chain points none []

/-- What a cursor has still to go through before it comes to the end of its chain. -/
inductive Ahead (chain : FixtureChain) : Cursor → List FixtureEntry → Prop where
  | atEnd {c next : Cursor} (hchain : c.chain = chain) (hnext : next.chain = chain)
      (hadv : c.advance = .ok (next, none)) : Ahead chain c []
  | entry {c next : Cursor} {e : FixtureEntry} {rest : List FixtureEntry} (hchain : c.chain = chain)
      (hmem : e ∈ chain.entries) (hadv : c.advance = .ok (next, some e))
      (hrest : Ahead chain next rest) : Ahead chain c (e :: rest)

namespace ChainSync

/-- So many headers have been served. -/
def countHeaders (n : Nat) (k : ChainSyncCounters) : ChainSyncCounters :=
  { k with
    headersServed := k.headersServed + UInt64.ofNat n
    rulesApplied := k.rulesApplied + UInt64.ofNat n }

/-- The answer to a `FindIntersect`. -/
def intersectReply (tip : Tip) : Option Point → ChainSyncMessage
  | some p => .intersectFound p tip
  | none => .intersectNotFound tip

/-- The header of an entry whose text decodes. -/
def contentOf (entry : FixtureEntry) : HeaderContent where
  variant := entry.variant
  byronPrefix := none
  cbor := match decodeHexStr entry.cborHex with
    | .ok cbor => cbor
    | .error _ => []

/-- The answer to a `RequestNext` that brings an entry. -/
def headerReply (tip : Tip) (entry : FixtureEntry) : ChainSyncMessage :=
  .rollForward (contentOf entry) tip

end ChainSync

namespace Proof

open ChainSync
open FixtureServing

/-- What a send, or a number of turns, has done: the messages, the cursor and the counters. -/
structure Turned (msgs : List ChainSyncMessage) (c : Cursor)
    (counted : ChainSyncCounters → ChainSyncCounters) (s s' : ChainSyncSession) : Prop where
  sent : s'.sent = s.sent ++ msgs.map Wire.message
  locals : s'.locals = ⟨counted s.locals.counters, some c⟩

/-- Performed from any session with cursor `c`, the send does this, and the session goes on. -/
def Acts (fixture : Option FixtureChain) (send : ScriptSend) (request : ReceivedRequest)
    (c : Cursor) (msgs : List ChainSyncMessage) (c' : Cursor)
    (counted : ChainSyncCounters → ChainSyncCounters) : Prop :=
  ∀ s : ChainSyncSession, s.locals.cursor = some c →
    ∃ s', (executeSend send request fixture s.state).run s = (.ok false, s') ∧
      Turned msgs c' counted s s'

section

variable {fixture : Option FixtureChain} {request : ReceivedRequest} {c c' next : Cursor}
  {tip : Tip} {chain : FixtureChain} {awaitSecs : UInt64}

theorem contentOf_eq {entry : FixtureEntry} (h : entry.Decodes) :
    entryToHeaderContent entry = .ok (contentOf entry) := by
  obtain ⟨content, hcontent, -⟩ := header_served h
  rw [entryToHeaderContent] at hcontent ⊢
  rw [contentOf]
  rcases hcbor : decodeHexStr entry.cborHex with f | cbor
  · rw [hcbor] at hcontent
    cases hcontent
  · rfl

/-- A cursor goes through the entries after its position. -/
theorem ahead_at {k : Nat} (hk : k ≤ chain.entries.length) :
    Ahead chain ⟨chain, k⟩ (chain.entries.drop k) := by
  induction hn : chain.entries.length - k generalizing k with
  | zero =>
    obtain rfl : k = chain.entries.length := by omega
    rw [List.drop_length]
    exact .atEnd rfl rfl (advance_last (Nat.le_refl _))
  | succ n ih =>
    have hlt : k < chain.entries.length := by omega
    rw [List.drop_eq_getElem_cons hlt]
    exact .entry rfl (List.getElem_mem hlt) (advance_next (List.getElem?_eq_getElem hlt))
      (ih hlt (by omega))

theorem cursor_tip (hchain : c.chain = chain) (htip : chain.tip = .ok tip) : c.tip = .ok tip := by
  rw [Cursor.tip, hchain]
  exact htip

/-! ## One turn -/

theorem acts_header {entry : FixtureEntry} (htip : c.tip = .ok tip)
    (hadv : c.advance = .ok (next, some entry)) (hdec : entry.Decodes) :
    Acts fixture .cursorAdvance request c [headerReply tip entry] next
      (fun k => { k with headersServed := k.headersServed + 1 }) := by
  intro s hs
  rw [executeSend_cursorAdvance, cursorAdvance, Prog.bind_assoc,
    Prog.run_bind_ok (needCursor_run hs), htip, hadv, Prog.bind_assoc,
    Prog.run_ofExcept_ok_bind, Prog.bind_assoc, Prog.run_ofExcept_ok_bind]
  dsimp only
  rw [contentOf_eq hdec]
  exact ⟨_, rfl, rfl, rfl⟩

theorem acts_noHeader (htip : c.tip = .ok tip) (hadv : c.advance = .ok (next, none)) :
    Acts fixture .cursorAdvance request c [.awaitReply] next
      (fun k => { k with awaitTriggered := true }) := by
  intro s hs
  rw [executeSend_cursorAdvance, cursorAdvance, Prog.bind_assoc,
    Prog.run_bind_ok (needCursor_run hs), htip, hadv]
  exact ⟨_, rfl, rfl, rfl⟩

theorem acts_awaitReply (holdSecs : UInt64) :
    Acts fixture (.awaitReply holdSecs) request c [.awaitReply] c
      (fun k => { k with awaitTriggered := true }) := by
  intro s hs
  refine ⟨_, rfl, rfl, ?_⟩
  show ChainSyncLocals.mk _ s.locals.cursor = _
  rw [hs]

/-- The intersection is counted, whether there is one or not. -/
theorem acts_findIntersect {points : List Point} {found : Option Point}
    {offered : List FixtureEntry} (hdec : chain.Decodes) (htip : chain.tip = .ok tip)
    (h : Joined chain points found offered) :
    ∃ c', Ahead chain c' offered ∧
      Acts (some chain) .cursorFindIntersect (.findIntersect points) (Cursor.new chain)
        [intersectReply tip found] c'
        (fun k => { k with intersectsHandled := k.intersectsHandled + 1 }) := by
  cases h with
  | @found p k h =>
    refine ⟨⟨chain, k⟩, ahead_at (pointAt_le h.here), fun s hs => ?_⟩
    have hfind : (Cursor.new chain).findIntersect (ReceivedRequest.findIntersect points).points =
        .ok (some (k : Int)) := findIntersect_found hdec _ h
    have htip' : (Cursor.new chain).tip = .ok tip := htip
    have hpoint : ((Cursor.new chain).setPos k).currentPoint = .ok p := currentPoint_at h.here
    rw [executeSend_cursorFindIntersect, cursorFindIntersect, Prog.bind_assoc,
      Prog.run_bind_ok (needCursor_run hs), Prog.bind_assoc,
      Prog.run_bind_ok (x := countIntersect) (a := ()) rfl, htip', hfind, Prog.bind_assoc,
      Prog.run_ofExcept_ok_bind, Prog.bind_assoc, Prog.run_ofExcept_ok_bind]
    dsimp only
    rw [Prog.bind_assoc, Prog.run_bind_ok (x := putCursor _) (a := ()) rfl, hpoint]
    exact ⟨_, rfl, rfl, rfl⟩
  | notFound h =>
    refine ⟨Cursor.new chain, .atEnd rfl rfl rfl, fun s hs => ?_⟩
    have hfind : (Cursor.new chain).findIntersect (ReceivedRequest.findIntersect points).points =
        .ok none := findIntersect_none hdec _ h
    have htip' : (Cursor.new chain).tip = .ok tip := htip
    rw [executeSend_cursorFindIntersect, cursorFindIntersect, Prog.bind_assoc,
      Prog.run_bind_ok (needCursor_run hs), Prog.bind_assoc,
      Prog.run_bind_ok (x := countIntersect) (a := ()) rfl, htip', hfind]
    refine ⟨_, rfl, rfl, ?_⟩
    show ChainSyncLocals.mk _ s.locals.cursor = _
    rw [hs]

/-- **One message.** The next rule matches, and its send is performed. -/
theorem serveLoop_turned {rules rest : List ScriptRule} {rule : ScriptRule} {ruleIdx : Nat}
    {msgs : List ChainSyncMessage} {counted : ChainSyncCounters → ChainSyncCounters}
    (hdrop : rules.drop ruleIdx = rule :: rest) (hmatch : request.matchesOn rule.on = true)
    (honce : rule.repeatable = false) (hrequest : request ≠ .done)
    (hsend : Acts fixture rule.send request c msgs c' counted)
    (s : ChainSyncSession) (hs : s.locals.cursor = some c) :
    ∃ s', Turned msgs c' (fun k => counted { k with rulesApplied := k.rulesApplied + 1 }) s s' ∧
      ∀ incoming, (serveLoop rules fixture ruleIdx (request :: incoming)).run s =
        (serveLoop rules fixture (ruleIdx + 1) incoming).run s' := by
  have hnext : nextRule request.matchesOn ruleIdx (rules.drop ruleIdx) = some (ruleIdx, rule) := by
    rw [hdrop, nextRule, if_pos hmatch]
  have hcursor : (turnTo request ruleIdx rule s).locals.cursor = some c := hs
  obtain ⟨s', hrun, hsent, hlocals⟩ := hsend (turnTo request ruleIdx rule s) hcursor
  refine ⟨settled rule.send s', ⟨hsent, hlocals⟩, fun incoming => ?_⟩
  rw [serveLoop_turn hrequest hnext, hrun, honce]
  rfl

/-! ## Many turns -/

theorem countHeaders_zero (k : ChainSyncCounters) : countHeaders 0 k = k := by
  show { k with
    headersServed := k.headersServed + 0, rulesApplied := k.rulesApplied + 0 } = k
  rw [UInt64.add_zero, UInt64.add_zero]

theorem countHeaders_succ (n : Nat) (k : ChainSyncCounters) :
    countHeaders (n + 1) k = countHeaders n
      { k with headersServed := k.headersServed + 1, rulesApplied := k.rulesApplied + 1 } := by
  have hone : ∀ a : UInt64, a + UInt64.ofNat (n + 1) = a + 1 + UInt64.ofNat n := by
    intro a
    rw [Nat.add_comm, UInt64.ofNat_add, UInt64.add_assoc]
    rfl
  rw [countHeaders, countHeaders, hone, hone]

/-- **Headers are served one for each request**, as long as there are rules for them. -/
theorem headers_turned (awaitSecs : UInt64) (hdec : chain.Decodes) (htip : chain.tip = .ok tip)
    (entries more : List FixtureEntry) (j : Nat) (hahead : Ahead chain c (entries ++ more))
    (hj : j + entries.length ≤ chain.entries.length) (s : ChainSyncSession)
    (hs : s.locals.cursor = some c) :
    ∃ c' s', Ahead chain c' more ∧
      Turned (entries.map (headerReply tip)) c' (countHeaders entries.length) s s' ∧
      ∀ incoming, (serveLoop (generateFromFixture chain awaitSecs) (some chain) (j + 1)
          (List.replicate entries.length .requestNext ++ incoming)).run s =
        (serveLoop (generateFromFixture chain awaitSecs) (some chain) (j + 1 + entries.length)
          incoming).run s' := by
  induction entries generalizing c j s with
  | nil =>
    refine ⟨c, s, hahead, ⟨(List.append_nil _).symm, ?_⟩, fun _ => rfl⟩
    rw [List.length_nil, countHeaders_zero, ← hs]
  | cons e entries ih =>
    rw [List.length_cons] at hj
    obtain ⟨next, hchain, hmem, hadv, hrest⟩ : ∃ next, c.chain = chain ∧ e ∈ chain.entries ∧
        c.advance = .ok (next, some e) ∧ Ahead chain next (entries ++ more) := by
      cases hahead with
      | entry hchain hmem hadv hrest => exact ⟨_, hchain, hmem, hadv, hrest⟩
    have hsend : Acts (some chain) .cursorAdvance .requestNext c [headerReply tip e] next
        (fun k => { k with headersServed := k.headersServed + 1 }) :=
      acts_header (cursor_tip hchain htip) hadv (hdec e hmem)
    have hdrop := generated_advance chain awaitSecs (show j < chain.entries.length by omega)
    obtain ⟨s₁, ⟨hsent, hlocals⟩, hrun⟩ := serveLoop_turned hdrop rfl rfl (by simp) hsend s hs
    obtain ⟨c', s', hahead', ⟨hsent', hlocals'⟩, hrun'⟩ :=
      ih (j + 1) hrest (by omega) s₁ (by rw [hlocals])
    refine ⟨c', s', hahead', ⟨?_, ?_⟩, fun incoming => ?_⟩
    · rw [hsent', hsent, List.append_assoc]
      rfl
    · rw [hlocals', hlocals, List.length_cons, countHeaders_succ]
    · rw [List.length_cons, List.replicate_succ, List.cons_append, hrun, hrun',
        show j + 1 + 1 + entries.length = j + 1 + (entries.length + 1) by omega]

/-- **Then the client is told to wait.** -/
theorem await_turned (awaitSecs : UInt64) (htip : chain.tip = .ok tip) (j : Nat)
    (hahead : Ahead chain c []) (hj : j ≤ chain.entries.length) (s : ChainSyncSession)
    (hs : s.locals.cursor = some c) :
    ∃ c' s', Turned [.awaitReply] c'
        (fun k => { k with awaitTriggered := true, rulesApplied := k.rulesApplied + 1 }) s s' ∧
      ∀ incoming, (serveLoop (generateFromFixture chain awaitSecs) (some chain) (j + 1)
          (.requestNext :: incoming)).run s =
        (serveLoop (generateFromFixture chain awaitSecs) (some chain) (j + 2) incoming).run s' := by
  cases hahead with
  | @atEnd _ next hchain _ hadv =>
    by_cases hlt : j < chain.entries.length
    · have hsend : Acts (some chain) .cursorAdvance .requestNext c [.awaitReply] next
          (fun k => { k with awaitTriggered := true }) :=
        acts_noHeader (cursor_tip hchain htip) hadv
      obtain ⟨s', hturned, hrun⟩ :=
        serveLoop_turned (generated_advance chain awaitSecs hlt) rfl rfl (by simp) hsend s hs
      exact ⟨next, s', hturned, hrun⟩
    · obtain rfl : j = chain.entries.length := by omega
      have hsend : Acts (some chain) (.awaitReply awaitSecs) .requestNext c [.awaitReply] c
          (fun k => { k with awaitTriggered := true }) := acts_awaitReply awaitSecs
      obtain ⟨s', hturned, hrun⟩ :=
        serveLoop_turned (generated_tail chain awaitSecs) rfl rfl (by simp) hsend s hs
      exact ⟨c, s', hturned, hrun⟩

end

end Proof

end ConformanceHarness
