import ConformanceHarness.Lib.Splits
import ConformanceHarness.Proof.FixtureServing

/-!
# When an `AwaitReply` is sent

A client has a read pointer: at the anchor first, moved by an intersection to the point
found, and by every `RollForward` to the next entry. By the script `generate_from_fixture`
writes, an `AwaitReply` is sent at the end of the chain only, except to a client that asks
for a header before it has an intersection: the cursor moves from before the anchor to the
anchor, which yields none.

The script has a `CursorAdvance` for each entry and then one `AwaitReply` with the hold. A
client that joined past the anchor reaches the end of the chain with a `CursorAdvance`
left, and is answered by that, without the hold.
-/

namespace ConformanceHarness

open ConformanceHarness.Lib (Prog BeforeEach beforeEach_nil beforeEach_cons)
open ConformanceHarness.Lib.Prog (Within)
open Session

/-- The position of a point: of the anchor, or of the first entry at it. -/
def FixtureChain.positionOf (chain : FixtureChain) (p : Point) : Nat :=
  if chain.anchor = p then 0
  else chain.entries.findIdx (fun e => e.point.toOption = some p) + 1

namespace Proof

open ChainSync FixtureServing

namespace AwaitReplies

/-- A message of the server moves the client's read pointer. -/
def movePointer (chain : FixtureChain) (ptr : Nat) : Wire ChainSyncMessage → Nat
  | .message (.intersectFound p _) => chain.positionOf p
  | .message (.rollForward ..) => ptr + 1
  | _ => ptr

/-- To a client whose read pointer is `ptr`, an `AwaitReply` is sent only after the last
header was. -/
def AwaitsAtTip (chain : FixtureChain) (ptr : Nat) (msgs : List (Wire ChainSyncMessage)) : Prop :=
  BeforeEach (.message .awaitReply)
    (fun before => chain.entries.length ≤ before.foldl (movePointer chain) ptr) msgs

/-- The client asks for a header when it has no intersection: first of all, or after a
`FindIntersect` with no known point. -/
def AsksUnplaced (chain : FixtureChain) : List ReceivedRequest → Prop
  | .requestNext :: _ => True
  | .findIntersect points :: .requestNext :: _ =>
    (Cursor.new chain).findIntersect points = .ok none
  | _ => False

theorem awaitsAtTip_nil (chain : FixtureChain) (ptr : Nat) : AwaitsAtTip chain ptr [] :=
  beforeEach_nil

theorem awaitsAtTip_cons {chain : FixtureChain} {ptr : Nat} {m : Wire ChainSyncMessage}
    {msgs : List (Wire ChainSyncMessage)}
    (hm : m = .message .awaitReply → chain.entries.length ≤ ptr)
    (h : AwaitsAtTip chain (movePointer chain ptr m) msgs) : AwaitsAtTip chain ptr (m :: msgs) :=
  beforeEach_cons.mpr ⟨hm, h⟩

theorem positionOf_eq {chain : FixtureChain} {p : Point} {k : Nat}
    (h : FirstPosition chain p k) : chain.positionOf p = k := by
  cases k with
  | zero => exact if_pos h.here
  | succ i =>
    have hanchor : ¬ chain.anchor = p := h.first 0 (Nat.succ_pos i)
    obtain ⟨e, hget, hpoint⟩ := h.here
    obtain ⟨hi, rfl⟩ := List.getElem?_eq_some_iff.mp hget
    rw [FixtureChain.positionOf, if_neg hanchor]
    congr 1
    rw [List.findIdx_eq hi]
    refine ⟨?_, fun j hj => ?_⟩
    · rw [hpoint]
      simp [Except.toOption]
    · have hbefore := h.first (j + 1) (Nat.succ_lt_succ hj)
      rw [decide_eq_false_iff_not]
      intro heq
      refine hbefore ⟨_, List.getElem?_eq_getElem (Nat.lt_trans hj hi), ?_⟩
      rcases hp : (chain.entries[j]).point with f | q <;> rw [hp] at heq
      · exact nomatch heq
      · rw [Option.some.inj heq]

/-! ## What a send can do -/

variable {fixture : Option FixtureChain} {request : ReceivedRequest} {c : Cursor} {tip : Tip}

theorem advance_stops {f : Fault} (htip : c.tip = .error f) :
    Stops fixture .cursorAdvance request c := by
  refine fun s hs => ⟨f, s, ?_, rfl⟩
  rw [executeSend_cursorAdvance, cursorAdvance, Prog.bind_assoc,
    Prog.run_bind_ok (needCursor_run hs), htip]
  rfl

/-- A `CursorAdvance` fails, serves the next header, or sends an `AwaitReply`. -/
theorem advance_cases (fixture : Option FixtureChain) (request : ReceivedRequest) (c : Cursor) :
    Stops fixture .cursorAdvance request c ∨
    (∃ next entry content tip, c.advance = .ok (next, some entry) ∧
      Performs fixture .cursorAdvance request c [.message (.rollForward content tip)] next
        false) ∨
    ∃ next, c.advance = .ok (next, none) ∧
      Performs fixture .cursorAdvance request c [.message .awaitReply] next false := by
  rcases htip : c.tip with f | tip
  · exact .inl (advance_stops htip)
  rcases hadv : c.advance with f | ⟨next, _ | entry⟩
  · refine .inl fun s hs => ⟨f, s, ?_, rfl⟩
    rw [executeSend_cursorAdvance, cursorAdvance, Prog.bind_assoc,
      Prog.run_bind_ok (needCursor_run hs), htip, hadv]
    rfl
  · exact .inr (.inr ⟨next, rfl, performs_noHeader htip hadv⟩)
  · rcases hhc : entryToHeaderContent entry with f | content
    · refine .inl fun s hs => ⟨f, s, ?_, rfl⟩
      rw [executeSend_cursorAdvance, cursorAdvance, Prog.bind_assoc,
        Prog.run_bind_ok (needCursor_run hs), htip, hadv, Prog.bind_assoc,
        Prog.run_ofExcept_ok_bind, Prog.bind_assoc, Prog.run_ofExcept_ok_bind]
      dsimp only
      rw [hhc]
      rfl
    · exact .inr (.inl ⟨next, entry, content, tip, rfl, performs_header htip hadv hhc⟩)

/-- A `CursorFindIntersect` fails, or answers what the cursor finds. -/
theorem find_cases (fixture : Option FixtureChain) (points : List Point) (c : Cursor) :
    Stops fixture .cursorFindIntersect (.findIntersect points) c ∨
    (∃ (k : Nat) (p : Point) (tip : Tip),
      c.tip = .ok tip ∧ FirstPosition c.chain p k ∧
      Performs fixture .cursorFindIntersect (.findIntersect points) c
        [.message (.intersectFound p tip)] ⟨c.chain, k⟩ false) ∨
    ∃ tip, c.findIntersect points = .ok none ∧
      Performs fixture .cursorFindIntersect (.findIntersect points) c
        [.message (.intersectNotFound tip)] c false := by
  rcases htip : c.tip with f | tip
  · exact .inl (find_stops (.inl htip))
  rcases hfind : c.findIntersect points with f | _ | q
  · exact .inl (find_stops (.inr hfind))
  · exact .inr (.inr ⟨tip, rfl, performs_intersectNotFound htip hfind⟩)
  · obtain ⟨k, p, rfl, hfirst⟩ := findIntersect_some hfind
    exact .inr (.inl ⟨k, p, tip, rfl, hfirst,
      performs_intersectFound htip hfind (currentPoint_at hfirst.here)⟩)

/-! ## What the loop makes of it -/

variable {rules : List ScriptRule} {rule : ScriptRule} {ruleIdx pos : Nat}

/-- A message whose only rules are a `Disconnect` is not answered. -/
theorem serveLoop_leaves (h : ∀ pos rule,
      nextRule request.matchesOn ruleIdx (rules.drop ruleIdx) = some (pos, rule) →
        rule.send = .disconnect)
    (incoming : List ReceivedRequest) (s : ChainSyncSession) :
    ((serveLoop rules fixture ruleIdx (request :: incoming)).run s).2.sent = s.sent := by
  by_cases hdone : request = .done
  · subst hdone
    rfl
  rcases hnext : nextRule request.matchesOn ruleIdx (rules.drop ruleIdx) with _ | ⟨pos, rule⟩
  · have hreceive : (receive request).run s = (.ok (), ((receive request).run s).2) := rfl
    rw [serveLoop, Prog.run_bind_ok hreceive, if_neg hdone, hnext]
    rfl
  · rw [serveLoop_turn hdone hnext, h pos rule hnext]
    rfl

/-! ## The generated script -/

variable {chain : FixtureChain} {awaitSecs : UInt64}

/-- `nextRule` finds a rule that matches. -/
theorem nextRule_matches {matchesOn : On → Bool} {rules : List ScriptRule}
    (h : nextRule matchesOn ruleIdx rules = some (pos, rule)) : matchesOn rule.on = true := by
  induction rules generalizing ruleIdx with
  | nil => exact nomatch h
  | cons r rest ih =>
    rw [nextRule] at h
    by_cases hm : matchesOn r.on
    · rw [if_pos hm] at h
      obtain ⟨-, rfl⟩ := Prod.mk.inj (Option.some.inj h)
      exact hm
    · rw [if_neg hm] at h
      exact ih h

/-- After the first rule, what is no `RequestNext` meets only the `Disconnect`. -/
theorem generated_other (hrequest : request ≠ .requestNext) (j : Nat)
    (hnext : nextRule request.matchesOn (j + 1)
      ((generateFromFixture chain awaitSecs).drop (j + 1)) = some (pos, rule)) :
    rule.send = .disconnect := by
  have hmatch := nextRule_matches hnext
  have hmem : rule ∈ (generateFromFixture chain awaitSecs).drop 1 := by
    rw [Nat.add_comm, ← List.drop_drop] at hnext
    exact List.mem_of_mem_drop (nextRule_mem hnext)
  have hon : rule.on ≠ .requestNext := by
    intro heq
    rw [heq] at hmatch
    cases request with
    | requestNext => exact hrequest rfl
    | findIntersect points => exact nomatch hmatch
    | done => exact nomatch hmatch
  simp only [generateFromFixture, List.cons_append, List.nil_append, List.drop_succ_cons,
    List.drop_zero, List.mem_append, List.mem_map, List.mem_cons, List.not_mem_nil,
    or_false] at hmem
  rcases hmem with ⟨_, -, rfl⟩ | rfl | rfl
  · exact absurd rfl hon
  · exact absurd rfl hon
  · rfl

/-- After the generated `AwaitReply` nothing is sent. -/
theorem sent_after_await (incoming : List ReceivedRequest) (s : ChainSyncSession) :
    ((serveLoop (generateFromFixture chain awaitSecs) fixture (chain.entries.length + 2)
      incoming).run s).2.sent = s.sent := by
  cases incoming with
  | nil => rfl
  | cons request incoming =>
    refine serveLoop_leaves (fun pos rule hnext => ?_) incoming s
    have hmem := nextRule_mem hnext
    rw [generated_last] at hmem
    rw [List.mem_singleton.mp hmem]

/-- The rule for a `RequestNext` while there are `CursorAdvance` rules left. -/
theorem generated_next (chain : FixtureChain) (awaitSecs : UInt64) {j : Nat}
    (hj : j < chain.entries.length) :
    nextRule (ReceivedRequest.matchesOn .requestNext) (j + 1)
      ((generateFromFixture chain awaitSecs).drop (j + 1)) =
        some (j + 1, { on := .requestNext, send := .cursorAdvance, repeatable := false }) := by
  rw [generated_advance chain awaitSecs hj]
  rfl

/-- The rule for the first `RequestNext`. -/
theorem generated_first (hentries : 0 < chain.entries.length) {ruleIdx : Nat} (hidx : ruleIdx ≤ 1) :
    nextRule (ReceivedRequest.matchesOn .requestNext) ruleIdx
      ((generateFromFixture chain awaitSecs).drop ruleIdx) =
        some (1, { on := .requestNext, send := .cursorAdvance, repeatable := false }) := by
  have hadvance := generated_next chain awaitSecs hentries
  rcases Nat.le_one_iff_eq_zero_or_eq_one.mp hidx with rfl | rfl
  · rw [generated_head]
    exact hadvance
  · exact hadvance

/-- **From an intersection on, no `AwaitReply` is premature**: there is a `CursorAdvance` left
only if there is at least one for each header. -/
theorem served_from (chain : FixtureChain) (awaitSecs : UInt64)
    (incoming : List ReceivedRequest) : ∀ (j k : Nat) (s : ChainSyncSession),
    j ≤ k → k ≤ chain.entries.length → s.locals.cursor = some ⟨chain, k⟩ →
    ∃ msgs, ((serveLoop (generateFromFixture chain awaitSecs) (some chain) (j + 1) incoming).run
      s).2.sent = s.sent ++ msgs ∧ AwaitsAtTip chain k msgs := by
  induction incoming with
  | nil => exact fun j k s _ _ _ => ⟨[], (List.append_nil _).symm, awaitsAtTip_nil chain k⟩
  | cons request incoming ih =>
    intro j k s hj hk hs
    by_cases hother : request ≠ .requestNext
    · refine ⟨[], ?_, awaitsAtTip_nil chain k⟩
      rw [serveLoop_leaves (fun pos rule => generated_other hother j), List.append_nil]
    obtain rfl := not_not.mp hother
    by_cases hlast : j = chain.entries.length
    · -- the rule with the hold
      obtain rfl : j = k := by omega
      subst hlast
      have hsend : Performs (some chain) (.awaitReply awaitSecs) .requestNext
          ⟨chain, (chain.entries.length : Nat)⟩ [.message .awaitReply] _ false :=
        performs_awaitReply awaitSecs
      obtain ⟨s', hsent, -, hrun⟩ :=
        serveLoop_step (generated_tail chain awaitSecs) rfl rfl (by simp) hsend incoming s hs
      refine ⟨[.message .awaitReply], ?_, awaitsAtTip_cons (fun _ => hk) (awaitsAtTip_nil _ _)⟩
      rw [hrun, if_neg Bool.false_ne_true, sent_after_await, hsent]
    · have hnext := generated_next chain awaitSecs (show j < chain.entries.length by omega)
      rcases advance_cases (some chain) .requestNext ⟨chain, k⟩ with
        hstops | ⟨next, entry, content, tip, hadv, hsend⟩ | ⟨next, hadv, hsend⟩
      · obtain ⟨f, s', hsent, hrun⟩ := serveLoop_stops hnext (by simp) hstops s hs
        refine ⟨[], ?_, awaitsAtTip_nil chain k⟩
        rw [hrun, hsent, List.append_nil]
      · -- a header: the cursor and the read pointer move together
        have hlt : k < chain.entries.length := by
          by_contra hge
          rw [advance_last (Nat.not_lt.mp hge)] at hadv
          exact nomatch (Prod.mk.inj (Except.ok.inj hadv)).2
        rw [advance_next (List.getElem?_eq_getElem hlt)] at hadv
        obtain ⟨rfl, -⟩ := Prod.mk.inj (Except.ok.inj hadv)
        obtain ⟨s', hsent, hcursor, hrun⟩ := serveLoop_fires hnext rfl (by simp) hsend s hs
        obtain ⟨msgs, hmsgs, hawaits⟩ := ih (j + 1) (k + 1) s' (by omega) hlt hcursor
        refine ⟨.message (.rollForward content tip) :: msgs, ?_,
          awaitsAtTip_cons (fun h => nomatch h) hawaits⟩
        rw [hrun, if_neg Bool.false_ne_true, hmsgs, hsent, List.append_assoc]
        rfl
      · -- none is left
        have hend : k = chain.entries.length := by
          by_contra hne
          have hlt : k < chain.entries.length := by omega
          rw [advance_next (List.getElem?_eq_getElem hlt)] at hadv
          exact nomatch (Prod.mk.inj (Except.ok.inj hadv)).2
        rw [advance_last (Nat.le_of_eq hend.symm)] at hadv
        obtain ⟨rfl, -⟩ := Prod.mk.inj (Except.ok.inj hadv)
        obtain ⟨s', hsent, hcursor, hrun⟩ := serveLoop_fires hnext rfl (by simp) hsend s hs
        obtain ⟨msgs, hmsgs, hawaits⟩ := ih (j + 1) k s' (by omega) hk hcursor
        refine ⟨.message .awaitReply :: msgs, ?_,
          awaitsAtTip_cons (fun _ => Nat.le_of_eq hend.symm) hawaits⟩
        rw [hrun, if_neg Bool.false_ne_true, hmsgs, hsent, List.append_assoc]
        rfl

/-- **Before an intersection, the first `RequestNext` is answered with `AwaitReply`.** -/
theorem await_unplaced (awaitSecs : UInt64) (hentries : 0 < chain.entries.length)
    (htip : chain.tip = .ok tip) {ruleIdx : Nat} (hidx : ruleIdx ≤ 1)
    (incoming : List ReceivedRequest) (s : ChainSyncSession)
    (hs : s.locals.cursor = some (Cursor.new chain)) :
    s.sent ++ [.message .awaitReply] <+: ((serveLoop (generateFromFixture chain awaitSecs)
      (some chain) ruleIdx (.requestNext :: incoming)).run s).2.sent := by
  have hsend : Performs (some chain) .cursorAdvance .requestNext (Cursor.new chain)
      [.message .awaitReply] ⟨chain, 0⟩ false := performs_noHeader htip rfl
  obtain ⟨s', hsent, -, hrun⟩ :=
    serveLoop_fires (generated_first hentries hidx) rfl (by simp) hsend s hs
  rw [hrun, if_neg Bool.false_ne_true, ← hsent]
  exact serveLoop_parts keepsParts_sent _ _ incoming s'

/-! ## Whole sessions -/

/-- What the loop did is what the session did. -/
theorem serveFixture_loop (chain : FixtureChain) (awaitSecs : UInt64)
    (incoming : List ReceivedRequest) :
    (serveFixture chain awaitSecs incoming).2.sent =
        ((serveLoop (generateFromFixture chain awaitSecs) (some chain) 0 incoming).run
          (started chain awaitSecs)).2.sent ∧
      (serveFixture chain awaitSecs incoming).2.performed =
        ((serveLoop (generateFromFixture chain awaitSecs) (some chain) 0 incoming).run
          (started chain awaitSecs)).2.performed := by
  have hstarted : (emit (startedEvent (generateFromFixture chain awaitSecs) (some chain))).run
      (session (some chain)) = (.ok (), started chain awaitSecs) := rfl
  rw [serveFixture, executeResponseScript, Prog.run_bind_ok hstarted]
  rcases h : (serveLoop (generateFromFixture chain awaitSecs) (some chain) 0 incoming).run
    (started chain awaitSecs) with ⟨f | _, s'⟩
  · rw [Prog.run_bind_error h]
    exact ⟨rfl, rfl⟩
  · rw [Prog.run_bind_ok h]
    exact ⟨rfl, rfl⟩

/-- The first rule, for a `FindIntersect`. -/
theorem generated_find (chain : FixtureChain) (awaitSecs : UInt64) (points : List Point) :
    nextRule (ReceivedRequest.matchesOn (.findIntersect points)) 0
      ((generateFromFixture chain awaitSecs).drop 0) =
        some (0, { on := .findIntersect, send := .cursorFindIntersect, repeatable := false }) := by
  rw [generated_head]
  rfl

/-- Where the tip does not decode, no message of a client is answered. -/
theorem served_no_tip (hentries : 0 < chain.entries.length) {f : Fault}
    (htip : chain.tip = .error f) (incoming : List ReceivedRequest) :
    (serveFixture chain awaitSecs incoming).2.sent = [] := by
  rw [(serveFixture_loop chain awaitSecs incoming).1]
  have hcursor : (started chain awaitSecs).locals.cursor = some (Cursor.new chain) := rfl
  cases incoming with
  | nil => rfl
  | cons request rest =>
    cases request with
    | done => rfl
    | requestNext =>
      have hstops : Stops (some chain) .cursorAdvance .requestNext (Cursor.new chain) :=
        advance_stops htip
      obtain ⟨f', s', hsame, hrun⟩ := serveLoop_stops
        (generated_first hentries (Nat.zero_le 1)) (by simp) hstops _ hcursor
      rw [hrun]
      exact hsame
    | findIntersect points =>
      have hstops : Stops (some chain) .cursorFindIntersect (.findIntersect points)
          (Cursor.new chain) := find_stops (.inl htip)
      obtain ⟨f', s', hsame, hrun⟩ := serveLoop_stops (generated_find chain awaitSecs points)
        (by simp) hstops _ hcursor
      rw [hrun]
      exact hsame

/-- A client that asks for headers from an intersection on only is sent no `AwaitReply` too
early. -/
theorem served_placed {incoming : List ReceivedRequest} (h : ¬ AsksUnplaced chain incoming) :
    AwaitsAtTip chain 0 (serveFixture chain awaitSecs incoming).2.sent := by
  rw [(serveFixture_loop chain awaitSecs incoming).1]
  have hcursor : (started chain awaitSecs).locals.cursor = some (Cursor.new chain) := rfl
  cases incoming with
  | nil => exact awaitsAtTip_nil chain 0
  | cons request rest =>
    cases request with
    | done => exact awaitsAtTip_nil chain 0
    | requestNext => exact absurd trivial h
    | findIntersect points =>
      have hnext := generated_find chain awaitSecs points
      rcases find_cases (some chain) points (Cursor.new chain) with
        hstops | ⟨k, p, tip, -, hfirst, hsend⟩ | ⟨tip, hfind, hsend⟩
      · obtain ⟨f', s', hsame, hrun⟩ := serveLoop_stops hnext (by simp) hstops _ hcursor
        rw [hrun, hsame]
        exact awaitsAtTip_nil chain 0
      · -- found: the read pointer is where the cursor is
        obtain ⟨s', hsent, hcursor', hrun⟩ := serveLoop_fires hnext rfl (by simp) hsend _ hcursor
        obtain ⟨msgs, hmsgs, hawaits⟩ := served_from chain awaitSecs rest 0 k s' (Nat.zero_le k)
          (pointAt_le hfirst.here) hcursor'
        rw [hrun, if_neg Bool.false_ne_true, hmsgs, hsent]
        refine awaitsAtTip_cons (fun heq => nomatch heq) ?_
        have hposition : chain.positionOf p = k := positionOf_eq hfirst
        rw [movePointer, hposition]
        exact hawaits
      · obtain ⟨s', hsent, hcursor', hrun⟩ := serveLoop_fires hnext rfl (by simp) hsend _ hcursor
        rw [hrun, if_neg Bool.false_ne_true]
        -- none: the client may not ask for a header next
        have hnone : ((serveLoop (generateFromFixture chain awaitSecs) (some chain) 1 rest).run
            s').2.sent = s'.sent := by
          cases rest with
          | nil => rfl
          | cons request rest =>
            refine serveLoop_leaves (fun pos rule => generated_other ?_ 0) rest s'
            rintro rfl
            exact h hfind
        rw [hnone, hsent]
        exact awaitsAtTip_cons (fun heq => nomatch heq) (awaitsAtTip_nil _ _)

/-- A client that asks for a header before that is sent one. -/
theorem served_unplaced (hentries : 0 < chain.entries.length) (htip : chain.tip = .ok tip)
    {incoming : List ReceivedRequest} (h : AsksUnplaced chain incoming) :
    ¬ AwaitsAtTip chain 0 (serveFixture chain awaitSecs incoming).2.sent := by
  rw [(serveFixture_loop chain awaitSecs incoming).1]
  have hcursor : (started chain awaitSecs).locals.cursor = some (Cursor.new chain) := rfl
  intro hawaits
  have hle : chain.entries.length ≤ 0 := by
    match incoming, h with
    | .requestNext :: rest, _ =>
      obtain ⟨more, hmore⟩ := await_unplaced awaitSecs hentries htip (Nat.zero_le 1) rest
        _ hcursor
      exact hawaits [] more hmore.symm
    | .findIntersect points :: .requestNext :: rest, hfind =>
      have hsend : Performs (some chain) .cursorFindIntersect (.findIntersect points)
          (Cursor.new chain) [.message (.intersectNotFound tip)] (Cursor.new chain) false :=
        performs_intersectNotFound htip hfind
      obtain ⟨s', hsent, hcursor', hrun⟩ := serveLoop_fires
        (generated_find chain awaitSecs points) rfl (by simp) hsend _ hcursor
      obtain ⟨more, hmore⟩ := await_unplaced awaitSecs hentries htip (Nat.le_refl 1) rest
        s' hcursor'
      rw [hrun, if_neg Bool.false_ne_true, ← hmore, hsent] at hawaits
      exact hawaits [.message (.intersectNotFound tip)] more rfl
  exact absurd hle (Nat.not_le_of_lt hentries)

/-- **An `AwaitReply` is premature exactly if the client asks for a header before it has an
intersection.** -/
theorem awaitsAtTip_iff (chain : FixtureChain) (awaitSecs : UInt64)
    (incoming : List ReceivedRequest) :
    AwaitsAtTip chain 0 (serveFixture chain awaitSecs incoming).2.sent ↔
      chain.entries = [] ∨ (∃ f, chain.tip = .error f) ∨ ¬ AsksUnplaced chain incoming := by
  rcases Nat.eq_zero_or_pos chain.entries.length with hzero | hpos
  · refine iff_of_true (fun before _ _ => ?_) (.inl (List.eq_nil_of_length_eq_zero hzero))
    rw [hzero]
    exact Nat.zero_le _
  rcases htip : chain.tip with f | tip
  · rw [served_no_tip hpos htip]
    exact iff_of_true (awaitsAtTip_nil chain 0) (.inr (.inl ⟨f, rfl⟩))
  · constructor
    · exact fun hawaits => .inr (.inr fun hasks => served_unplaced hpos htip hasks hawaits)
    · rintro (hnil | ⟨f, hf⟩ | hplaced)
      · rw [hnil] at hpos
        exact absurd hpos (Nat.lt_irrefl 0)
      · exact nomatch hf
      · exact served_placed hplaced

/-- One entry, at slot 10. -/
def oneHeader : FixtureChain where
  anchor := .origin
  entries := [⟨10, "aa", 1, "abcd", defaultHeaderVariant⟩]

/-- A client that does not ask for an intersection is told to wait for the one header there is. -/
theorem await_before_first_header :
    ¬ AwaitsAtTip oneHeader 0 (serveFixture oneHeader 30 [.requestNext]).2.sent := by
  intro h
  have hsent : (serveFixture oneHeader 30 [.requestNext]).2.sent = [.message .awaitReply] := by
    decide
  rw [hsent] at h
  exact absurd (h [] [] rfl) (by decide)

/-! ## The hold at the tip -/

/-- The client intersects at position `k`, and receives the headers after it. -/
def Joined (chain : FixtureChain) (awaitSecs : UInt64) (points : List Point) (k : Nat) : Prop :=
  ∃ (p : Point) (tip : Tip) (contents : List HeaderContent),
    chain.positionOf p = k ∧ contents.length = chain.entries.length - k ∧
    (serveFixture chain awaitSecs (clientRequests points (chain.entries.length - k))).2.sent =
      .message (.intersectFound p tip) ::
        contents.map fun content => .message (.rollForward content tip)

/-- Its next `RequestNext` gets an `AwaitReply`, by a send that holds the session. -/
def HeldAtTip (chain : FixtureChain) (awaitSecs : UInt64) (points : List Point) (k : Nat) : Prop :=
  let joined := serveFixture chain awaitSecs (clientRequests points (chain.entries.length - k))
  let asked := serveFixture chain awaitSecs (clientRequests points (chain.entries.length - k + 1))
  asked.2.sent = joined.2.sent ++ [.message .awaitReply] ∧
    ∃ state locals send, asked.2.performed.getLast? = some (.sent state locals send) ∧
      sleepSecs send = awaitSecs

/-- A send that answers with an `AwaitReply`. -/
def Awaits (fixture : Option FixtureChain) (send : ScriptSend) (c : Cursor) : Prop :=
  ∀ s : ChainSyncSession, s.locals.cursor = some c →
    ∃ s', (executeSend send .requestNext fixture s.state).run s = (.ok false, s') ∧
      s'.sent = s.sent ++ [.message .awaitReply] ∧
      s'.performed = s.performed ++ [.sent s.state s.locals send]

theorem awaits_awaitReply (holdSecs : UInt64) : Awaits fixture (.awaitReply holdSecs) c :=
  fun _ _ => ⟨_, rfl, rfl, rfl⟩

theorem awaits_noHeader {next : Cursor} (htip : c.tip = .ok tip)
    (hadv : c.advance = .ok (next, none)) : Awaits fixture .cursorAdvance c := by
  intro s hs
  rw [executeSend_cursorAdvance, cursorAdvance, Prog.bind_assoc,
    Prog.run_bind_ok (needCursor_run hs), htip, hadv]
  exact ⟨_, rfl, rfl, rfl⟩

/-- The last message of a session, answered by such a send. -/
theorem serveLoop_awaits
    (hnext : nextRule (ReceivedRequest.matchesOn .requestNext) ruleIdx (rules.drop ruleIdx) =
      some (pos, rule))
    (honce : rule.repeatable = false) (hsend : Awaits fixture rule.send c)
    (s : ChainSyncSession) (hs : s.locals.cursor = some c) :
    ∃ s', (serveLoop rules fixture ruleIdx [.requestNext]).run s = (.ok (), s') ∧
      s'.sent = s.sent ++ [.message .awaitReply] ∧
      ∃ state locals, s'.performed.getLast? = some (.sent state locals rule.send) := by
  have hcursor : (turnTo .requestNext pos rule s).locals.cursor = some c := hs
  obtain ⟨s', hrun, hsent, hperf⟩ := hsend (turnTo .requestNext pos rule s) hcursor
  have hlast : s'.performed.getLast? = _ := (congrArg _ hperf).trans List.getLast?_concat
  refine ⟨settled rule.send s', ?_, hsent, _, _, hlast⟩
  rw [serveLoop_turn (by simp) hnext, hrun, honce]
  rfl

/-- **As many `RequestNext` as there are headers**: they are served, or the session stops before
it has sent that many messages. -/
theorem headers_or_stops (chain : FixtureChain) (awaitSecs : UInt64) (m : Nat) :
    ∀ (j k : Nat) (s : ChainSyncSession), j + m ≤ chain.entries.length →
      k + m ≤ chain.entries.length → s.locals.cursor = some ⟨chain, k⟩ →
      (∃ f s', s'.sent.length < s.sent.length + m ∧
        (serveLoop (generateFromFixture chain awaitSecs) (some chain) (j + 1)
          (List.replicate m .requestNext)).run s = (.error f, s')) ∨
      ∃ s', s'.locals.cursor = some ⟨chain, (k + m : Nat)⟩ ∧ ∀ incoming,
        (serveLoop (generateFromFixture chain awaitSecs) (some chain) (j + 1)
          (List.replicate m .requestNext ++ incoming)).run s =
        (serveLoop (generateFromFixture chain awaitSecs) (some chain) (j + m + 1) incoming).run
          s' := by
  induction m with
  | zero => exact fun j k s _ _ hs => .inr ⟨s, hs, fun _ => rfl⟩
  | succ m ih =>
    intro j k s hj hk hs
    have hnext := generated_next chain awaitSecs (show j < chain.entries.length by omega)
    have hget := List.getElem?_eq_getElem (show k < chain.entries.length by omega)
    rcases advance_cases (some chain) .requestNext ⟨chain, k⟩ with
      hstops | ⟨next, entry, content, tip, hadv, hsend⟩ | ⟨next, hadv, hsend⟩
    · obtain ⟨f, s', hsent, hrun⟩ := serveLoop_stops hnext (by simp) hstops s hs
      refine .inl ⟨f, s', ?_, hrun _⟩
      rw [hsent]
      omega
    · rw [advance_next hget] at hadv
      obtain ⟨rfl, -⟩ := Prod.mk.inj (Except.ok.inj hadv)
      obtain ⟨s₁, hsent, hcursor, hrun⟩ := serveLoop_fires hnext rfl (by simp) hsend s hs
      rcases ih (j + 1) (k + 1) s₁ (by omega) (by omega) hcursor with
        ⟨f, s', hlen, hstop⟩ | ⟨s', hcursor', hgo⟩
      · refine .inl ⟨f, s', ?_, ?_⟩
        · rw [hsent, List.length_append, List.length_singleton] at hlen
          omega
        · rw [List.replicate_succ, hrun, if_neg Bool.false_ne_true, hstop]
      · refine .inr ⟨s', ?_, fun incoming => ?_⟩
        · rw [hcursor', Nat.add_right_comm k 1 m]
          rfl
        · rw [List.replicate_succ, List.cons_append, hrun, if_neg Bool.false_ne_true, hgo,
            Nat.add_right_comm j 1 m]
          rfl
    · rw [advance_next hget] at hadv
      exact nomatch (Prod.mk.inj (Except.ok.inj hadv)).2

/-- A client that joined has read up to the last header, and is answered by the rule after as
many `CursorAdvance` as it has received headers. -/
theorem joined_session {points : List Point} {k : Nat} (h : Joined chain awaitSecs points k) :
    k ≤ chain.entries.length ∧ (∃ tip, chain.tip = .ok tip) ∧ ∃ s : ChainSyncSession,
      s.locals.cursor = some ⟨chain, (chain.entries.length : Nat)⟩ ∧ ∀ incoming,
        (serveLoop (generateFromFixture chain awaitSecs) (some chain) 0
          (clientRequests points (chain.entries.length - k) ++ incoming)).run
            (started chain awaitSecs) =
          (serveLoop (generateFromFixture chain awaitSecs) (some chain)
            (chain.entries.length - k + 1) incoming).run s := by
  obtain ⟨p, tip, contents, hposition, hlen, hsent⟩ := h
  rw [(serveFixture_loop chain awaitSecs _).1, clientRequests] at hsent
  have hcursor : (started chain awaitSecs).locals.cursor = some (Cursor.new chain) := rfl
  have hnext := generated_find chain awaitSecs points
  have hgrows : ∀ (s : ChainSyncSession) (ruleIdx : Nat) (incoming : List ReceivedRequest),
      s.sent <+: ((serveLoop (generateFromFixture chain awaitSecs) (some chain) ruleIdx
        incoming).run s).2.sent :=
    fun s ruleIdx incoming => serveLoop_parts keepsParts_sent _ ruleIdx incoming s
  rcases find_cases (some chain) points (Cursor.new chain) with
    hstops | ⟨k', p', tip', htip, hfirst, hsend⟩ | ⟨tip', -, hsend⟩
  · obtain ⟨f, s', hsame, hrun⟩ := serveLoop_stops hnext (by simp) hstops _ hcursor
    rw [hrun, hsame] at hsent
    cases hsent
  · obtain ⟨s₁, hsent₁, hcursor₁, hrun⟩ := serveLoop_fires hnext rfl (by simp) hsend _ hcursor
    rw [hrun, if_neg Bool.false_ne_true] at hsent
    -- the point found is the one the client was told, so `k'` is `k`
    have hfound := hgrows s₁ (0 + 1) (List.replicate (chain.entries.length - k) .requestNext)
    rw [hsent₁, hsent] at hfound
    obtain ⟨more, hmore⟩ := hfound
    obtain ⟨hmsg, -⟩ := List.cons.inj hmore
    obtain ⟨rfl, -⟩ := ChainSyncMessage.intersectFound.inj (Wire.message.inj hmsg)
    have hk' : chain.positionOf p' = k' := positionOf_eq hfirst
    obtain rfl : k' = k := hk'.symm.trans hposition
    have hk : k' ≤ chain.entries.length := pointAt_le hfirst.here
    refine ⟨hk, ⟨tip', htip⟩, ?_⟩
    rcases headers_or_stops chain awaitSecs (chain.entries.length - k') 0 k' s₁ (by omega)
      (by omega) hcursor₁ with ⟨f, s₂, hshort, hstop⟩ | ⟨s₂, hcursor₂, hgo⟩
    · rw [hstop] at hsent
      rw [hsent, hsent₁, List.length_cons, List.length_map, hlen] at hshort
      have hone : ((started chain awaitSecs).sent ++ [Wire.message
        (ChainSyncMessage.intersectFound p' tip')]).length = 1 := rfl
      omega
    · refine ⟨s₂, ?_, fun incoming => ?_⟩
      · rw [hcursor₂, Nat.add_sub_cancel' hk]
      · rw [clientRequests, List.cons_append, hrun, if_neg Bool.false_ne_true, hgo, Nat.zero_add]
  · obtain ⟨s₁, hsent₁, -, hrun⟩ := serveLoop_fires hnext rfl (by simp) hsend _ hcursor
    rw [hrun, if_neg Bool.false_ne_true] at hsent
    have hnone := hgrows s₁ (0 + 1) (List.replicate (chain.entries.length - k) .requestNext)
    rw [hsent₁, hsent] at hnone
    obtain ⟨more, hmore⟩ := hnone
    cases Wire.message.inj (List.cons.inj hmore).1

/-- **The hold is kept exactly for the clients that joined at the anchor**, unless it is zero. -/
theorem heldAtTip_iff {points : List Point} {k : Nat} (h : Joined chain awaitSecs points k) :
    HeldAtTip chain awaitSecs points k ↔ k = 0 ∨ awaitSecs = 0 := by
  obtain ⟨hk, ⟨tip, htip⟩, s, hcursor, hrun⟩ := joined_session h
  have hjoined := hrun []
  have hasked := hrun [.requestNext]
  rw [List.append_nil] at hjoined
  have hrequests : clientRequests points (chain.entries.length - k) ++ [.requestNext] =
      clientRequests points (chain.entries.length - k + 1) := by
    rw [clientRequests, clientRequests, List.replicate_succ']
    rfl
  rw [hrequests] at hasked
  have hsent := (serveFixture_loop chain awaitSecs
    (clientRequests points (chain.entries.length - k))).1
  obtain ⟨hsent', hperf'⟩ := serveFixture_loop chain awaitSecs
    (clientRequests points (chain.entries.length - k + 1))
  rw [hjoined] at hsent
  rw [hasked] at hsent' hperf'
  rw [HeldAtTip, hsent, hsent', hperf']
  rcases Nat.eq_zero_or_pos k with rfl | hpos
  · -- no `CursorAdvance` is left
    have hnext : nextRule (ReceivedRequest.matchesOn .requestNext) (chain.entries.length - 0 + 1)
        ((generateFromFixture chain awaitSecs).drop (chain.entries.length - 0 + 1)) =
          some (chain.entries.length + 1,
            { on := .requestNext, send := .awaitReply awaitSecs, repeatable := false }) := by
      rw [Nat.sub_zero, generated_tail]
      rfl
    obtain ⟨s', hlast, hawait, state, locals, hperf⟩ :=
      serveLoop_awaits hnext rfl (awaits_awaitReply awaitSecs) s hcursor
    rw [hlast]
    exact iff_of_true ⟨hawait, state, locals, _, hperf, rfl⟩ (.inl rfl)
  · have hnext := generated_next chain awaitSecs
      (show chain.entries.length - k < chain.entries.length by omega)
    have hsend : Awaits (some chain) .cursorAdvance ⟨chain, (chain.entries.length : Nat)⟩ :=
      awaits_noHeader htip (advance_last (Nat.le_refl _))
    obtain ⟨s', hlast, hawait, state, locals, hperf⟩ := serveLoop_awaits hnext rfl hsend s hcursor
    rw [hlast]
    constructor
    · rintro ⟨-, state', locals', send, hlast', hsleep⟩
      have hsame := SessionStep.sent.inj (Option.some.inj (hperf.symm.trans hlast'))
      obtain rfl := hsame.2.2
      exact .inr hsleep.symm
    · rintro (rfl | rfl)
      · exact absurd hpos (Nat.lt_irrefl 0)
      · exact ⟨hawait, state, locals, _, hperf, rfl⟩

/-- A client that joins at the one header of its chain. -/
theorem heldAtTip_iff_one : Joined oneHeader 30 [.specific 10 [0xaa]] 1 ∧
    (HeldAtTip oneHeader 30 [.specific 10 [0xaa]] 1 ↔ 1 = 0 ∨ (30 : UInt64) = 0) := by
  have hjoined : Joined oneHeader 30 [.specific 10 [0xaa]] 1 :=
    ⟨.specific 10 [0xaa], ⟨.specific 10 [0xaa], 1⟩, [], by decide, by decide, by decide⟩
  exact ⟨hjoined, heldAtTip_iff hjoined⟩

/-- It is not held for the 30 seconds. -/
theorem joined_at_tip_not_held : Joined oneHeader 30 [.specific 10 [0xaa]] 1 ∧
    ¬ HeldAtTip oneHeader 30 [.specific 10 [0xaa]] 1 := by
  refine ⟨⟨.specific 10 [0xaa], ⟨.specific 10 [0xaa], 1⟩, [], by decide, by decide, by decide⟩, ?_⟩
  rintro ⟨-, state, locals, send, hlast, hsleep⟩
  have hsend : send = .cursorAdvance := by
    obtain ⟨-, -, rfl⟩ := SessionStep.sent.inj (Option.some.inj hlast)
    rfl
  rw [hsend] at hsleep
  exact absurd hsleep (by decide)

end AwaitReplies

end Proof

end ConformanceHarness
