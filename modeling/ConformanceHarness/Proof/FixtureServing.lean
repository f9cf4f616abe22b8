import ConformanceHarness.Proof.CursorSpec
import ConformanceHarness.Proof.SessionParts

/-!
# Serving a fixture honestly

The script `generate_from_fixture` writes, against a client that sends one
`FindIntersect` and then any number of `RequestNext`. The first known point is found,
and the headers after it follow in order, each once.

Nothing checks the hex of a fixture when it is loaded. Serving decodes it, and panics
where it does not decode; that is the only thing that can go wrong.
-/

namespace ConformanceHarness.Proof

open ConformanceHarness.Lib (Prog)
open Session ChainSync

namespace FixtureServing

/-! ## What one rule does -/

/-- Performed from any session with cursor `c`, the send puts `msgs` on the channel and
leaves cursor `c'`; `done` is whether the session ends. -/
def Performs (fixture : Option FixtureChain) (send : ScriptSend) (request : ReceivedRequest)
    (c : Cursor) (msgs : List (Wire ChainSyncMessage)) (c' : Cursor) (done : Bool) : Prop :=
  ∀ s : ChainSyncSession, s.locals.cursor = some c →
    ∃ s', (executeSend send request fixture s.state).run s = (.ok done, s') ∧
      s'.sent = s.sent ++ msgs ∧ s'.locals.cursor = some c'

/-- Performed from any session with cursor `c`, the send fails and puts nothing on the channel. -/
def Stops (fixture : Option FixtureChain) (send : ScriptSend) (request : ReceivedRequest)
    (c : Cursor) : Prop :=
  ∀ s : ChainSyncSession, s.locals.cursor = some c →
    ∃ f s', (executeSend send request fixture s.state).run s = (.error f, s') ∧ s'.sent = s.sent

variable {fixture : Option FixtureChain} {request : ReceivedRequest} {c next : Cursor} {tip : Tip}

theorem needCursor_run {rule : String} {s : ChainSyncSession} (hs : s.locals.cursor = some c) :
    (needCursor rule).run s = (.ok c, s) := by
  rw [needCursor, Prog.run_get_bind, hs]
  rfl

theorem performs_intersectFound {pos : Int} {pt : Point} (htip : c.tip = .ok tip)
    (hfind : c.findIntersect request.points = .ok (some pos))
    (hpt : (c.setPos pos).currentPoint = .ok pt) :
    Performs fixture .cursorFindIntersect request c [.message (.intersectFound pt tip)]
      (c.setPos pos) false := by
  intro s hs
  rw [executeSend_cursorFindIntersect, cursorFindIntersect, Prog.bind_assoc,
    Prog.run_bind_ok (needCursor_run hs), Prog.bind_assoc,
    Prog.run_bind_ok (x := countIntersect) (a := ()) rfl, htip, hfind, Prog.bind_assoc,
    Prog.run_ofExcept_ok_bind, Prog.bind_assoc, Prog.run_ofExcept_ok_bind]
  dsimp only
  rw [Prog.bind_assoc, Prog.run_bind_ok (x := putCursor _) (a := ()) rfl, hpt]
  exact ⟨_, rfl, rfl, rfl⟩

theorem performs_intersectNotFound (htip : c.tip = .ok tip)
    (hfind : c.findIntersect request.points = .ok none) :
    Performs fixture .cursorFindIntersect request c [.message (.intersectNotFound tip)] c
      false := by
  intro s hs
  rw [executeSend_cursorFindIntersect, cursorFindIntersect, Prog.bind_assoc,
    Prog.run_bind_ok (needCursor_run hs), Prog.bind_assoc,
    Prog.run_bind_ok (x := countIntersect) (a := ()) rfl, htip, hfind]
  exact ⟨_, rfl, rfl, hs⟩

theorem performs_header {entry : FixtureEntry} {hc : HeaderContent} (htip : c.tip = .ok tip)
    (hadv : c.advance = .ok (next, some entry)) (hhc : entryToHeaderContent entry = .ok hc) :
    Performs fixture .cursorAdvance request c [.message (.rollForward hc tip)] next false := by
  intro s hs
  rw [executeSend_cursorAdvance, cursorAdvance, Prog.bind_assoc,
    Prog.run_bind_ok (needCursor_run hs), htip, hadv, Prog.bind_assoc,
    Prog.run_ofExcept_ok_bind, Prog.bind_assoc, Prog.run_ofExcept_ok_bind]
  dsimp only
  rw [hhc]
  exact ⟨_, rfl, rfl, rfl⟩

theorem performs_noHeader (htip : c.tip = .ok tip) (hadv : c.advance = .ok (next, none)) :
    Performs fixture .cursorAdvance request c [.message .awaitReply] next false := by
  intro s hs
  rw [executeSend_cursorAdvance, cursorAdvance, Prog.bind_assoc,
    Prog.run_bind_ok (needCursor_run hs), htip, hadv]
  exact ⟨_, rfl, rfl, rfl⟩

theorem performs_awaitReply (holdSecs : UInt64) :
    Performs fixture (.awaitReply holdSecs) request c [.message .awaitReply] c false :=
  fun _ hs => ⟨_, rfl, rfl, hs⟩

theorem performs_disconnect : Performs fixture .disconnect request c [] c true :=
  fun _ hs => ⟨_, rfl, (List.append_nil _).symm, hs⟩

/-- Whatever stops the search stops the answer to a `FindIntersect`. -/
theorem find_stops {points : List Point} {f : Fault}
    (h : c.tip = .error f ∨ c.findIntersect points = .error f) :
    Stops fixture .cursorFindIntersect (.findIntersect points) c := by
  intro s hs
  have hcount : countIntersect.run s = (.ok (), (countIntersect.run s).2) := rfl
  rcases htip : c.tip with f' | tip
  · refine ⟨f', (countIntersect.run s).2, ?_, rfl⟩
    rw [executeSend_cursorFindIntersect, cursorFindIntersect, Prog.bind_assoc,
      Prog.run_bind_ok (needCursor_run hs), Prog.bind_assoc, Prog.run_bind_ok hcount, htip]
    rfl
  · have hfind : c.findIntersect (ReceivedRequest.findIntersect points).points = .error f :=
      h.resolve_left (by rw [htip]; exact fun h => nomatch h)
    refine ⟨f, (countIntersect.run s).2, ?_, rfl⟩
    rw [executeSend_cursorFindIntersect, cursorFindIntersect, Prog.bind_assoc,
      Prog.run_bind_ok (needCursor_run hs), Prog.bind_assoc, Prog.run_bind_ok hcount, htip,
      hfind]
    rfl

/-- **One message.** A rule matches, and its send is performed. -/
theorem serveLoop_fires {rules : List ScriptRule} {rule : ScriptRule} {ruleIdx pos : Nat}
    {msgs : List (Wire ChainSyncMessage)} {c' : Cursor} {done : Bool}
    (hnext : nextRule request.matchesOn ruleIdx (rules.drop ruleIdx) = some (pos, rule))
    (honce : rule.repeatable = false) (hrequest : request ≠ .done)
    (hsend : Performs fixture rule.send request c msgs c' done)
    (s : ChainSyncSession) (hs : s.locals.cursor = some c) :
    ∃ s', s'.sent = s.sent ++ msgs ∧ s'.locals.cursor = some c' ∧
      ∀ incoming, (serveLoop rules fixture ruleIdx (request :: incoming)).run s =
        if done then (.ok (), s') else (serveLoop rules fixture (pos + 1) incoming).run s' := by
  have hcursor : (turnTo request pos rule s).locals.cursor = some c := hs
  obtain ⟨s', hrun, hsent, hcursor'⟩ := hsend (turnTo request pos rule s) hcursor
  refine ⟨settled rule.send s', hsent, hcursor', fun incoming => ?_⟩
  rw [serveLoop_turn hrequest hnext, hrun, honce]
  cases done <;> rfl

/-- A send that stops, stops the session. -/
theorem serveLoop_stops {rules : List ScriptRule} {rule : ScriptRule} {ruleIdx pos : Nat}
    (hnext : nextRule request.matchesOn ruleIdx (rules.drop ruleIdx) = some (pos, rule))
    (hrequest : request ≠ .done) (hsend : Stops fixture rule.send request c)
    (s : ChainSyncSession) (hs : s.locals.cursor = some c) :
    ∃ f s', s'.sent = s.sent ∧ ∀ incoming,
      (serveLoop rules fixture ruleIdx (request :: incoming)).run s = (.error f, s') := by
  have hcursor : (turnTo request pos rule s).locals.cursor = some c := hs
  obtain ⟨f, s', hrun, hsent⟩ := hsend (turnTo request pos rule s) hcursor
  refine ⟨f, s', hsent, fun incoming => ?_⟩
  rw [serveLoop_turn hrequest hnext, hrun]

/-- The next rule is the one that matches. -/
theorem serveLoop_step {rules rest : List ScriptRule} {rule : ScriptRule} {ruleIdx : Nat}
    {msgs : List (Wire ChainSyncMessage)} {c' : Cursor} {done : Bool}
    (hdrop : rules.drop ruleIdx = rule :: rest) (hmatch : request.matchesOn rule.on = true)
    (honce : rule.repeatable = false) (hrequest : request ≠ .done)
    (hsend : Performs fixture rule.send request c msgs c' done)
    (incoming : List ReceivedRequest) (s : ChainSyncSession) (hs : s.locals.cursor = some c) :
    ∃ s', s'.sent = s.sent ++ msgs ∧ s'.locals.cursor = some c' ∧
      (serveLoop rules fixture ruleIdx (request :: incoming)).run s =
        if done then (.ok (), s') else (serveLoop rules fixture (ruleIdx + 1) incoming).run s' := by
  have hnext : nextRule request.matchesOn ruleIdx (rules.drop ruleIdx) = some (ruleIdx, rule) := by
    rw [hdrop, nextRule, if_pos hmatch]
  obtain ⟨s', hsent, hcursor, hrun⟩ := serveLoop_fires hnext honce hrequest hsend s hs
  exact ⟨s', hsent, hcursor, hrun incoming⟩

/-! ## The generated script -/

/-- The rules of the generated script, from the first `CursorAdvance` on. -/
theorem generated_advance (chain : FixtureChain) (awaitSecs : UInt64) {j : Nat}
    (hj : j < chain.entries.length) :
    (generateFromFixture chain awaitSecs).drop (j + 1) =
      { on := .requestNext, send := .cursorAdvance, repeatable := false } ::
        (generateFromFixture chain awaitSecs).drop (j + 2) := by
  have hget : (generateFromFixture chain awaitSecs)[j + 1]? =
      some { on := .requestNext, send := .cursorAdvance, repeatable := false } := by
    simp [generateFromFixture, List.getElem?_append, hj]
  rw [List.drop_eq_getElem?_toList_append, hget]
  rfl

/-- The two rules after the last `CursorAdvance`. -/
theorem generated_tail (chain : FixtureChain) (awaitSecs : UInt64) :
    (generateFromFixture chain awaitSecs).drop (chain.entries.length + 1) =
      [{ on := .requestNext, send := .awaitReply awaitSecs, repeatable := false },
        { on := .any, send := .disconnect, repeatable := false }] := by
  simp [generateFromFixture]

/-- The last rule. -/
theorem generated_last (chain : FixtureChain) (awaitSecs : UInt64) :
    (generateFromFixture chain awaitSecs).drop (chain.entries.length + 2) =
      [{ on := .any, send := .disconnect, repeatable := false }] := by
  have hdrop : (generateFromFixture chain awaitSecs).drop (chain.entries.length + 1 + 1) =
      ((generateFromFixture chain awaitSecs).drop (chain.entries.length + 1)).drop 1 :=
    List.drop_drop.symm
  rw [hdrop, generated_tail]
  rfl

variable {chain : FixtureChain} {awaitSecs : UInt64}

/-- `content` carries the variant and the bytes of `entry`. -/
structure HeaderOf (entry : FixtureEntry) (content : HeaderContent) : Prop where
  variant : content.variant = entry.variant
  byronPrefix : content.byronPrefix = none
  cbor : Fixture.decodeHex entry.cborHex = .ok content.cbor

/-- A header that is hex is served as it is. -/
theorem header_served {entry : FixtureEntry} (h : entry.Decodes) :
    ∃ content, entryToHeaderContent entry = .ok content ∧ HeaderOf entry content := by
  obtain ⟨cbor, hcbor⟩ := h.header
  refine ⟨⟨entry.variant, none, cbor⟩, ?_, rfl, rfl, hcbor⟩
  have hlenient : decodeHexStr entry.cborHex = .ok cbor :=
    decodePairsLenient_of_decodeHexWith hcbor
  rw [entryToHeaderContent, hlenient]
  rfl

/-- **The headers after position `k`, in order**, as long as there are both headers and
`CursorAdvance` rules left. -/
theorem serve_headers (hdec : chain.Decodes) (htip : chain.tip = .ok tip) (m : Nat) :
    ∀ (j k : Nat) (s : ChainSyncSession), j + m ≤ chain.entries.length →
      k + m ≤ chain.entries.length → s.locals.cursor = some ⟨chain, k⟩ →
      ∃ s' contents, List.Forall₂ HeaderOf ((chain.entries.drop k).take m) contents ∧
        s'.sent = s.sent ++ contents.map (fun content => .message (.rollForward content tip)) ∧
        (serveLoop (generateFromFixture chain awaitSecs) (some chain) (j + 1)
          (List.replicate m .requestNext)).run s = (.ok (), s') := by
  induction m with
  | zero =>
    intro j k s _ _ _
    exact ⟨s, [], .nil, (List.append_nil _).symm, rfl⟩
  | succ m ih =>
    intro j k s hj hk hs
    obtain ⟨entry, hget⟩ : ∃ entry, chain.entries[k]? = some entry :=
      ⟨_, List.getElem?_eq_getElem (by omega)⟩
    obtain ⟨content, hcontent, hof⟩ := header_served (hdec entry (List.mem_of_getElem? hget))
    have hsend : Performs (some chain) .cursorAdvance .requestNext ⟨chain, k⟩
        [.message (.rollForward content tip)] ⟨chain, (k + 1 : Nat)⟩ false :=
      performs_header htip (advance_next hget) hcontent
    have hdrop := generated_advance chain awaitSecs (show j < chain.entries.length by omega)
    obtain ⟨s₁, hsent, hcursor, hrun⟩ :=
      serveLoop_step hdrop rfl rfl (by simp) hsend (List.replicate m .requestNext) s hs
    obtain ⟨s', contents, hall, hsent', hrun'⟩ :=
      ih (j + 1) (k + 1) s₁ (by omega) (by omega) hcursor
    refine ⟨s', content :: contents, ?_, ?_, ?_⟩
    · rw [List.drop_eq_getElem?_toList_append, hget]
      exact .cons hof hall
    · rw [hsent', hsent, List.append_assoc]
      rfl
    · rw [List.replicate_succ, hrun]
      exact hrun'

/-- **Any number of `RequestNext` is answered**: past the headers, past the generated
`AwaitReply`, until the generated `Disconnect`. -/
theorem serve_total (hdec : chain.Decodes) (m : Nat) :
    ∀ (j : Nat) (c : Cursor) (s : ChainSyncSession), j ≤ chain.entries.length + 1 →
      OnChain chain c → s.locals.cursor = some c →
      ∃ s' more, s'.sent = s.sent ++ more ∧
        (serveLoop (generateFromFixture chain awaitSecs) (some chain) (j + 1)
          (List.replicate m .requestNext)).run s = (.ok (), s') := by
  obtain ⟨tip, htip⟩ := tip_ok hdec
  induction m with
  | zero =>
    intro j c s _ _ _
    exact ⟨s, [], (List.append_nil _).symm, rfl⟩
  | succ m ih =>
    intro j c s hj hc hs
    obtain ⟨rfl, -⟩ := id hc
    by_cases hlast : j = c.chain.entries.length + 1
    · -- the `Disconnect` ends the session
      subst hlast
      have hdrop := generated_last c.chain awaitSecs
      have hsend : Performs (some c.chain) .disconnect .requestNext c [] c true :=
        performs_disconnect
      obtain ⟨s', hsent, -, hrun⟩ :=
        serveLoop_step hdrop rfl rfl (by simp) hsend (List.replicate m .requestNext) s hs
      refine ⟨s', [], hsent, ?_⟩
      rw [List.replicate_succ, hrun]
      rfl
    · by_cases hawait : j = c.chain.entries.length
      · subst hawait
        have hsend : Performs (some c.chain) (.awaitReply awaitSecs) .requestNext c
            [.message .awaitReply] c false := performs_awaitReply awaitSecs
        obtain ⟨s₁, hsent, hcursor, hrun⟩ :=
          serveLoop_step (generated_tail c.chain awaitSecs) rfl rfl (by simp) hsend
            (List.replicate m .requestNext) s hs
        obtain ⟨s', more, hmore, hrun'⟩ :=
          ih (c.chain.entries.length + 1) c s₁ (by omega) hc hcursor
        refine ⟨s', [.message .awaitReply] ++ more, ?_, ?_⟩
        · rw [hmore, hsent, List.append_assoc]
        · rw [List.replicate_succ, hrun]
          exact hrun'
      · -- a `CursorAdvance`, which may yield a header
        obtain ⟨next, entry, hadv, hnext, hmem⟩ := advance_onChain hc
        obtain ⟨msgs, hsend⟩ : ∃ msgs,
            Performs (some c.chain) .cursorAdvance .requestNext c msgs next false := by
          cases entry with
          | none => exact ⟨_, performs_noHeader htip hadv⟩
          | some entry =>
            obtain ⟨content, hcontent, -⟩ := header_served (hdec entry (hmem entry rfl))
            exact ⟨_, performs_header htip hadv hcontent⟩
        have hdrop := generated_advance c.chain awaitSecs (show j < c.chain.entries.length by omega)
        obtain ⟨s₁, hsent, hcursor, hrun⟩ :=
          serveLoop_step hdrop rfl rfl (by simp) hsend (List.replicate m .requestNext) s hs
        obtain ⟨s', more, hmore, hrun'⟩ := ih (j + 1) next s₁ (by omega) hnext hcursor
        refine ⟨s', msgs ++ more, ?_, ?_⟩
        · rw [hmore, hsent, List.append_assoc]
        · rw [List.replicate_succ, hrun]
          exact hrun'

/-! ## Whole sessions -/

/-- A session that serves `chain` by its generated script. -/
def serveFixture (chain : FixtureChain) (awaitSecs : UInt64) (incoming : List ReceivedRequest) :
    Except Fault ChainSyncServerSummary × ChainSyncSession :=
  (executeResponseScript (generateFromFixture chain awaitSecs) (some chain) incoming).run
    (session (some chain))

/-- A client that sends one `FindIntersect`, then `m` times `RequestNext`. -/
def clientRequests (points : List Point) (m : Nat) : List ReceivedRequest :=
  .findIntersect points :: List.replicate m .requestNext

/-- The client is answered as the fixture says. -/
structure ServesClient (chain : FixtureChain) (awaitSecs : UInt64) (points : List Point) (m : Nat) :
    Prop where
  /-- Nothing panics: no index is out of range. -/
  returns : (serveFixture chain awaitSecs (clientRequests points m)).1.isOk = true
  found : ∀ p k, FirstOccurrence chain points p k → m ≤ chain.entries.length - k →
    ∃ tip contents, chain.tip = .ok tip ∧
      List.Forall₂ HeaderOf ((chain.entries.drop k).take m) contents ∧
      (serveFixture chain awaitSecs (clientRequests points m)).2.sent =
        .message (.intersectFound p tip) ::
          contents.map fun content => .message (.rollForward content tip)
  notFound : NoOccurrence chain points → ∃ tip rest, chain.tip = .ok tip ∧
    (serveFixture chain awaitSecs (clientRequests points m)).2.sent =
      .message (.intersectNotFound tip) :: rest ∧
    (serveFixture chain awaitSecs [.findIntersect points]).2.locals.cursor = some (Cursor.new chain)

/-- The session once the script has begun. -/
def started (chain : FixtureChain) (awaitSecs : UInt64) : ChainSyncSession :=
  ((emit (startedEvent (generateFromFixture chain awaitSecs) (some chain)) :
    ChainSyncServer Unit).run (session (some chain))).2

theorem serveFixture_returns {incoming : List ReceivedRequest} {s' : ChainSyncSession}
    (h : (serveLoop (generateFromFixture chain awaitSecs) (some chain) 0 incoming).run
      (started chain awaitSecs) = (.ok (), s')) :
    (serveFixture chain awaitSecs incoming).1.isOk = true ∧
      (serveFixture chain awaitSecs incoming).2.sent = s'.sent ∧
      (serveFixture chain awaitSecs incoming).2.locals = s'.locals := by
  have hstarted : (emit (startedEvent (generateFromFixture chain awaitSecs) (some chain))).run
      (session (some chain)) = (.ok (), started chain awaitSecs) := rfl
  rw [serveFixture, executeResponseScript, Prog.run_bind_ok hstarted, Prog.run_bind_ok h]
  exact ⟨rfl, rfl, rfl⟩

/-- The generated script starts with the rule for a `FindIntersect`. -/
theorem generated_head (chain : FixtureChain) (awaitSecs : UInt64) :
    (generateFromFixture chain awaitSecs).drop 0 =
      { on := .findIntersect, send := .cursorFindIntersect, repeatable := false } ::
        (generateFromFixture chain awaitSecs).drop 1 := rfl

/-- The answer to a `FindIntersect` with a known point. -/
theorem serve_found (hdec : chain.Decodes) (htip : chain.tip = .ok tip) {points : List Point}
    {p : Point} {k : Nat} (h : FirstOccurrence chain points p k) (incoming : List ReceivedRequest) :
    ∃ s', s'.sent = [.message (.intersectFound p tip)] ∧ s'.locals.cursor = some ⟨chain, k⟩ ∧
      (serveLoop (generateFromFixture chain awaitSecs) (some chain) 0
        (.findIntersect points :: incoming)).run (started chain awaitSecs) =
      (serveLoop (generateFromFixture chain awaitSecs) (some chain) 1 incoming).run s' := by
  have hsend : Performs (some chain) .cursorFindIntersect (.findIntersect points)
      (Cursor.new chain) [.message (.intersectFound p tip)] ⟨chain, k⟩ false :=
    performs_intersectFound htip (findIntersect_found hdec _ h) (currentPoint_at h.here)
  exact serveLoop_step (generated_head chain awaitSecs) rfl rfl (by simp) hsend incoming
    (started chain awaitSecs) rfl

/-- The answer to a `FindIntersect` with none. -/
theorem serve_notFound (hdec : chain.Decodes) (htip : chain.tip = .ok tip) {points : List Point}
    (h : NoOccurrence chain points) (incoming : List ReceivedRequest) :
    ∃ s', s'.sent = [.message (.intersectNotFound tip)] ∧
      s'.locals.cursor = some (Cursor.new chain) ∧
      (serveLoop (generateFromFixture chain awaitSecs) (some chain) 0
        (.findIntersect points :: incoming)).run (started chain awaitSecs) =
      (serveLoop (generateFromFixture chain awaitSecs) (some chain) 1 incoming).run s' := by
  have hsend : Performs (some chain) .cursorFindIntersect (.findIntersect points)
      (Cursor.new chain) [.message (.intersectNotFound tip)] (Cursor.new chain) false :=
    performs_intersectNotFound htip (findIntersect_none hdec _ h)
  exact serveLoop_step (generated_head chain awaitSecs) rfl rfl (by simp) hsend incoming
    (started chain awaitSecs) rfl

/-- **A fixture that decodes is served as it says.** -/
theorem decodes_serves (hdec : chain.Decodes) (awaitSecs : UInt64) (points : List Point) (m : Nat) :
    ServesClient chain awaitSecs points m := by
  obtain ⟨tip, htip⟩ := tip_ok hdec
  constructor
  case returns =>
    let rest := List.replicate m ReceivedRequest.requestNext
    obtain ⟨c, s₁, hc, hcursor, hrun⟩ : ∃ c s₁, OnChain chain c ∧ s₁.locals.cursor = some c ∧
        (serveLoop (generateFromFixture chain awaitSecs) (some chain) 0
          (.findIntersect points :: rest)).run (started chain awaitSecs) =
        (serveLoop (generateFromFixture chain awaitSecs) (some chain) 1 rest).run s₁ := by
      rcases firstOccurrence_or_none hdec points with ⟨p, k, hp⟩ | hno
      · obtain ⟨s₁, -, hcursor, hrun⟩ := serve_found hdec htip hp rest
        exact ⟨_, s₁, onChain_at hp.here, hcursor, hrun⟩
      · obtain ⟨s₁, -, hcursor, hrun⟩ := serve_notFound hdec htip hno rest
        exact ⟨_, s₁, onChain_new chain, hcursor, hrun⟩
    obtain ⟨s', -, -, hrun'⟩ := serve_total hdec m 0 c s₁ (Nat.zero_le _) hc hcursor
    exact (serveFixture_returns (hrun.trans hrun')).1
  case found =>
    intro p k hp hm
    have hk := pointAt_le hp.here
    obtain ⟨s₁, hsent, hcursor, hrun⟩ := serve_found hdec htip hp (List.replicate m .requestNext)
    obtain ⟨s', contents, hall, hsent', hrun'⟩ :=
      serve_headers hdec htip m 0 k s₁ (by omega) (by omega) hcursor
    obtain ⟨-, hend, -⟩ := serveFixture_returns (hrun.trans hrun')
    refine ⟨tip, contents, htip, hall, ?_⟩
    rw [clientRequests, hend, hsent', hsent]
    rfl
  case notFound =>
    intro hno
    obtain ⟨s₁, hsent, hcursor, hrun⟩ :=
      serve_notFound hdec htip hno (List.replicate m .requestNext)
    obtain ⟨s', more, hmore, hrun'⟩ :=
      serve_total hdec m 0 _ s₁ (by omega) (onChain_new chain) hcursor
    obtain ⟨-, hend, -⟩ := serveFixture_returns (hrun.trans hrun')
    obtain ⟨s₂, -, hcursor₂, hrun₂⟩ := serve_notFound hdec htip hno []
    obtain ⟨-, -, hlocals⟩ := serveFixture_returns hrun₂
    refine ⟨tip, more, htip, ?_, ?_⟩
    · rw [clientRequests, hend, hmore, hsent]
      rfl
    · rw [hlocals, hcursor₂]

/-- Every `FindIntersect` is answered. -/
theorem sent_ne_nil (hdec : chain.Decodes) (awaitSecs : UInt64) (points : List Point) :
    (serveFixture chain awaitSecs (clientRequests points 0)).2.sent ≠ [] := by
  have hserves := decodes_serves hdec awaitSecs points 0
  intro hnil
  rcases firstOccurrence_or_none hdec points with ⟨p, k, hp⟩ | hno
  · obtain ⟨tip, contents, -, -, hsent⟩ := hserves.found p k hp (Nat.zero_le _)
    exact nomatch hnil.symm.trans hsent
  · obtain ⟨tip, rest, -, hsent, -⟩ := hserves.notFound hno
    exact nomatch hnil.symm.trans hsent

/-! ## Fixtures that do not decode -/

end FixtureServing

end ConformanceHarness.Proof
