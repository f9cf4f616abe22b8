import ConformanceHarness.Proof.Conversion

/-!
# Fixtures that read the same are served the same

A server reads the hashes and the headers of a fixture, and never their text. Two
fixtures with one anchor whose entries read the same answer every client with the same
messages, under every script that is the same up to such entries.
-/

namespace ConformanceHarness

open ConformanceHarness.Lib (Prog)
open ConformanceHarness.Lib.Prog (SameEnd Simulates)

/-- Two entries that differ in the text of their hash and header, if at all. -/
structure SameEntry (e e' : FixtureEntry) : Prop where
  slot : e.slot = e'.slot
  blockNumber : e.blockNumber = e'.blockNumber
  variant : e.variant = e'.variant
  hash : Fixture.decodeHexUnchecked e.blockHash = Fixture.decodeHexUnchecked e'.blockHash
  header : ChainSync.decodeHexStr e.cborHex = ChainSync.decodeHexStr e'.cborHex

/-- Two chains of such entries, with one anchor. -/
structure SameChain (chain chain' : FixtureChain) : Prop where
  anchor : chain.anchor = chain'.anchor
  entries : List.Forall₂ SameEntry chain.entries chain'.entries

/-- Two cursors at one position. -/
structure SameCursor (c c' : Cursor) : Prop where
  chain : SameChain c.chain c'.chain
  pos : c.pos = c'.pos

/-- Two sessions a client cannot tell apart. -/
structure SameSession (s t : ChainSyncSession) : Prop where
  state : s.state = t.state
  cursor : Option.Rel SameCursor s.locals.cursor t.locals.cursor
  sent : s.sent = t.sent

/-! ## Entries and chains -/

theorem SameEntry.point_eq {e e' : FixtureEntry} (h : SameEntry e e') : e.point = e'.point := by
  rw [FixtureEntry.point, FixtureEntry.point, h.slot, h.hash]

theorem SameEntry.headerContent_eq {e e' : FixtureEntry} (h : SameEntry e e') :
    ChainSync.entryToHeaderContent e = ChainSync.entryToHeaderContent e' := by
  rw [ChainSync.entryToHeaderContent, ChainSync.entryToHeaderContent, h.variant, h.header]

theorem SameChain.tip_eq {chain chain' : FixtureChain} (h : SameChain chain chain') :
    chain.tip = chain'.tip := by
  have hlast := Proof.forall₂_getElem? h.entries (chain.entries.length - 1)
  rw [FixtureChain.tip, FixtureChain.tip, List.getLast?_eq_getElem?, List.getLast?_eq_getElem?,
    ← h.entries.length_eq]
  generalize chain.entries[chain.entries.length - 1]? = e at hlast
  generalize chain'.entries[chain.entries.length - 1]? = e' at hlast
  cases hlast with
  | none => rw [h.anchor]
  | some he =>
    dsimp only
    rw [he.point_eq, he.blockNumber]

/-! ## The cursor -/

/-- The loop of `point_to_pos`, over both. -/
theorem Cursor.entryPos_same {entries entries' : List FixtureEntry}
    (h : List.Forall₂ SameEntry entries entries') (slot : UInt64) (hash : List UInt8) (i : Nat) :
    Cursor.entryPos slot hash i entries = Cursor.entryPos slot hash i entries' := by
  induction h generalizing i with
  | nil => rfl
  | cons he _ ih => rw [Cursor.entryPos, Cursor.entryPos, he.slot, he.hash, ih]

theorem SameCursor.findIntersect_eq {c c' : Cursor} (h : SameCursor c c') (points : List Point) :
    c.findIntersect points = c'.findIntersect points := by
  have hpos : ∀ p, c.pointToPos p = c'.pointToPos p := by
    intro p
    cases p with
    | origin => rw [Cursor.pointToPos, Cursor.pointToPos, h.chain.anchor]
    | specific slot hash =>
      rw [Cursor.pointToPos, Cursor.pointToPos, h.chain.anchor,
        Cursor.entryPos_same h.chain.entries]
  induction points with
  | nil => rfl
  | cons p rest ih => rw [Cursor.findIntersect, Cursor.findIntersect, hpos, ih]

/-- Two lookups by index. -/
theorem SameCursor.entryAt_same {c c' : Cursor} (h : SameCursor c c') (i : Nat) :
    SameEnd SameEntry (c.entryAt i) (c'.entryAt i) := by
  have hentry := Proof.forall₂_getElem? h.chain.entries i
  rw [Cursor.entryAt, Cursor.entryAt]
  generalize c.chain.entries[i]? = e at hentry
  generalize c'.chain.entries[i]? = e' at hentry
  cases hentry with
  | none => trivial
  | some he => exact he

theorem SameCursor.setPos {c c' : Cursor} (h : SameCursor c c') (pos : Int) :
    SameCursor (c.setPos pos) (c'.setPos pos) := ⟨h.chain, rfl⟩

theorem SameCursor.currentPoint_same {c c' : Cursor} (h : SameCursor c c') :
    SameEnd Eq c.currentPoint c'.currentPoint := by
  rw [Cursor.currentPoint, Cursor.currentPoint, h.pos]
  by_cases hpos : c'.pos ≤ 0
  · rw [if_pos hpos, if_pos hpos]
    exact h.chain.anchor
  · rw [if_neg hpos, if_neg hpos]
    have hentry := h.entryAt_same (Cursor.asUsize (c'.pos - 1))
    generalize c.entryAt (Cursor.asUsize (c'.pos - 1)) = r at hentry
    generalize c'.entryAt (Cursor.asUsize (c'.pos - 1)) = r' at hentry
    rcases r with _ | e <;> rcases r' with _ | e'
    · trivial
    · exact hentry.elim
    · exact hentry.elim
    · dsimp only
      rw [hentry.point_eq]
      exact SameEnd.refl _

/-- Both advance to entries that read the same, or to none. -/
theorem SameCursor.advance_same {c c' : Cursor} (h : SameCursor c c') :
    SameEnd (fun r r' => SameCursor r.1 r'.1 ∧ Option.Rel SameEntry r.2 r'.2)
      c.advance c'.advance := by
  simp only [Cursor.advance]
  rw [h.pos, h.chain.entries.length_eq]
  by_cases hend : Cursor.asUsize (c'.pos + 1) > c'.chain.entries.length
  · rw [if_pos hend, if_pos hend]
    exact ⟨h, .none⟩
  · rw [if_neg hend, if_neg hend]
    by_cases hzero : c'.pos + 1 = 0
    · rw [if_pos hzero, if_pos hzero]
      exact ⟨h.setPos _, .none⟩
    · rw [if_neg hzero, if_neg hzero]
      have hentry := h.entryAt_same (Cursor.asUsize (c'.pos + 1 - 1))
      generalize c.entryAt (Cursor.asUsize (c'.pos + 1 - 1)) = r at hentry
      generalize c'.entryAt (Cursor.asUsize (c'.pos + 1 - 1)) = r' at hentry
      rcases r with _ | e <;> rcases r' with _ | e'
      · trivial
      · exact hentry.elim
      · exact hentry.elim
      · exact ⟨h.setPos _, .some hentry⟩

namespace Proof

open Session ChainSync

/-! ## Steps that a client does not see, and messages -/

section Steps

variable {fixture fixture' : Option FixtureChain}

theorem emit_same (event event' : TraceEvent) :
    Simulates SameSession (fun _ _ => True) (emit event : ChainSyncServer Unit)
      (emit event' : ChainSyncServer Unit) :=
  Simulates.modify fun _ _ h => ⟨h.state, h.cursor, h.sent⟩

theorem noteSend_same (send send' : ScriptSend) :
    Simulates SameSession (fun _ _ => True) (noteSend send : ChainSyncServer Unit)
      (noteSend send' : ChainSyncServer Unit) :=
  Simulates.modify fun _ _ h => ⟨h.state, h.cursor, h.sent⟩

theorem noteDelivered_same (source source' : HeaderSource) :
    Simulates SameSession (fun _ _ => True) (noteDelivered source : ChainSyncServer Unit)
      (noteDelivered source' : ChainSyncServer Unit) :=
  Simulates.modify fun _ _ h => ⟨h.state, h.cursor, h.sent⟩

theorem count_same (f f' : ChainSyncCounters → ChainSyncCounters) :
    Simulates SameSession (fun _ _ => True) (count f) (count f') :=
  Simulates.modify fun _ _ h => ⟨h.state, h.cursor, h.sent⟩

theorem sendMessage_same (m : ChainSyncMessage) :
    Simulates SameSession (fun _ _ => True) (sendMessage m : ChainSyncServer Unit)
      (sendMessage m : ChainSyncServer Unit) :=
  Simulates.modify fun _ _ h => ⟨h.state, h.cursor, congrArg (· ++ [Wire.message m]) h.sent⟩

theorem sendRaw_same (bytes : List UInt8) :
    Simulates SameSession (fun _ _ => True) (sendRaw bytes : ChainSyncServer Unit)
      (sendRaw bytes : ChainSyncServer Unit) :=
  Simulates.modify fun _ _ h => ⟨h.state, h.cursor, congrArg (· ++ [Wire.raw bytes]) h.sent⟩

theorem putCursor_same {c c' : Cursor} (hc : SameCursor c c') :
    Simulates SameSession (fun _ _ => True) (putCursor c) (putCursor c') :=
  Simulates.modify fun _ _ h => ⟨h.state, .some hc, h.sent⟩

theorem needCursor_same (rule : String) :
    Simulates SameSession SameCursor (needCursor rule) (needCursor rule) := by
  refine Simulates.bind Simulates.get fun s t h => ?_
  have hcursor := h.cursor
  generalize s.locals.cursor = c at hcursor
  generalize t.locals.cursor = c' at hcursor
  cases hcursor with
  | none => exact Simulates.ofExcept trivial
  | some hc => exact Simulates.pure hc

/-- The tip on the wire. -/
theorem wireTip_same (h : Option.Rel SameChain fixture fixture') (spec : Option TipSpec) :
    wireTip fixture spec = wireTip fixture' spec := by
  cases h with
  | none => rfl
  | some hchain => rw [wireTip, wireTip, hchain.tip_eq]

/-- The message is sent, the event written. -/
theorem send_emit_same (send send' : ScriptSend) (m : ChainSyncMessage)
    {x y : ChainSyncServer Unit} (hxy : Simulates SameSession (fun _ _ => True) x y) :
    Simulates SameSession (fun _ _ => True)
      (noteSend send >>= fun _ => sendMessage m >>= fun _ => x)
      (noteSend send' >>= fun _ => sendMessage m >>= fun _ => y) := by
  refine Simulates.bind (noteSend_same _ _) fun _ _ _ => ?_
  exact Simulates.bind (sendMessage_same m) fun _ _ _ => hxy

/-! ## Sends -/

theorem cursorFindIntersect_same (request : ReceivedRequest) (stateBefore : ServerCsState) :
    Simulates SameSession (fun _ _ => True) (cursorFindIntersect request stateBefore)
      (cursorFindIntersect request stateBefore) := by
  refine Simulates.bind (needCursor_same _) fun c c' hc => ?_
  refine Simulates.bind (count_same _ _) fun _ _ _ => ?_
  rw [Cursor.tip, Cursor.tip, hc.chain.tip_eq, hc.findIntersect_eq]
  refine Simulates.bind (Simulates.ofExcept (SameEnd.refl _)) fun tip _ htip => ?_
  subst htip
  refine Simulates.bind (Simulates.ofExcept (SameEnd.refl _)) fun pos _ hpos => ?_
  subst hpos
  cases pos with
  | none => exact send_emit_same _ _ _ (emit_same _ _)
  | some pos =>
    refine Simulates.bind (putCursor_same (hc.setPos pos)) fun _ _ _ => ?_
    refine Simulates.bind (Simulates.ofExcept (hc.setPos pos).currentPoint_same) fun pt _ hpt => ?_
    subst hpt
    exact send_emit_same _ _ _ (emit_same _ _)

theorem cursorAdvance_same (stateBefore : ServerCsState) :
    Simulates SameSession (fun _ _ => True) (cursorAdvance stateBefore)
      (cursorAdvance stateBefore) := by
  refine Simulates.bind (needCursor_same _) fun c c' hc => ?_
  rw [Cursor.tip, Cursor.tip, hc.chain.tip_eq]
  refine Simulates.bind (Simulates.ofExcept (SameEnd.refl _)) fun tip _ htip => ?_
  subst htip
  refine Simulates.bind (Simulates.ofExcept hc.advance_same) fun r r' hr => ?_
  obtain ⟨next, entry⟩ := r
  obtain ⟨next', entry'⟩ := r'
  obtain ⟨hnext, hentry⟩ := hr
  cases hentry with
  | none =>
    refine Simulates.bind (noteSend_same _ _) fun _ _ _ => ?_
    refine Simulates.bind (putCursor_same hnext) fun _ _ _ => ?_
    refine Simulates.bind (count_same _ _) fun _ _ _ => ?_
    exact Simulates.bind (sendMessage_same _) fun _ _ _ => emit_same _ _
  | some he =>
    dsimp only
    rw [he.headerContent_eq]
    refine Simulates.bind (Simulates.ofExcept (SameEnd.refl _)) fun hc _ hhc => ?_
    subst hhc
    refine Simulates.bind (noteSend_same _ _) fun _ _ _ => ?_
    refine Simulates.bind (putCursor_same hnext) fun _ _ _ => ?_
    refine Simulates.bind (sendMessage_same _) fun _ _ _ => ?_
    refine Simulates.bind (noteDelivered_same _ _) fun _ _ _ => ?_
    exact Simulates.bind (count_same _ _) fun _ _ _ => emit_same _ _

theorem rollForward_same (hfixture : Option.Rel SameChain fixture fixture')
    {source source' : HeaderSource} (hsource : HeaderRel SameEntry source source')
    (tip : Option TipSpec) (stateBefore : ServerCsState) :
    Simulates SameSession (fun _ _ => True) (rollForward source tip fixture stateBefore)
      (rollForward source' tip fixture' stateBefore) := by
  have hcontent : headerSourceToContent source = headerSourceToContent source' := by
    cases hsource with
    | entry he => exact he.headerContent_eq
    | literal cbor variant => rfl
  rw [rollForward, rollForward, wireTip_same hfixture, hcontent]
  refine Simulates.bind (Simulates.ofExcept (SameEnd.refl _)) fun wire _ hwire => ?_
  subst hwire
  refine Simulates.bind (Simulates.ofExcept (SameEnd.refl _)) fun hc _ hhc => ?_
  subst hhc
  refine send_emit_same _ _ _ ?_
  refine Simulates.bind (noteDelivered_same _ _) fun _ _ _ => ?_
  exact Simulates.bind (count_same _ _) fun _ _ _ => emit_same _ _

theorem rollBackward_same (hfixture : Option.Rel SameChain fixture fixture') (point : String)
    (tip : Option TipSpec) (stateBefore : ServerCsState) :
    Simulates SameSession (fun _ _ => True) (rollBackward point tip fixture stateBefore)
      (rollBackward point tip fixture' stateBefore) := by
  rw [rollBackward, rollBackward, wireTip_same hfixture]
  refine Simulates.bind (Simulates.ofExcept (SameEnd.refl _)) fun wire _ hwire => ?_
  subst hwire
  refine Simulates.bind (Simulates.ofExcept (SameEnd.refl _)) fun pt _ hpt => ?_
  subst hpt
  exact send_emit_same _ _ _ (emit_same _ _)

theorem intersectFound_same (hfixture : Option.Rel SameChain fixture fixture') (point : String)
    (tip : Option TipSpec) (stateBefore : ServerCsState) :
    Simulates SameSession (fun _ _ => True) (intersectFound point tip fixture stateBefore)
      (intersectFound point tip fixture' stateBefore) := by
  rw [intersectFound, intersectFound, wireTip_same hfixture]
  refine Simulates.bind (Simulates.ofExcept (SameEnd.refl _)) fun wire _ hwire => ?_
  subst hwire
  refine Simulates.bind (Simulates.ofExcept (SameEnd.refl _)) fun pt _ hpt => ?_
  subst hpt
  exact send_emit_same _ _ _ (Simulates.bind (count_same _ _) fun _ _ _ => emit_same _ _)

theorem intersectNotFound_same (hfixture : Option.Rel SameChain fixture fixture')
    (tip : Option TipSpec) (stateBefore : ServerCsState) :
    Simulates SameSession (fun _ _ => True) (intersectNotFound tip fixture stateBefore)
      (intersectNotFound tip fixture' stateBefore) := by
  rw [intersectNotFound, intersectNotFound, wireTip_same hfixture]
  refine Simulates.bind (Simulates.ofExcept (SameEnd.refl _)) fun wire _ hwire => ?_
  subst hwire
  exact send_emit_same _ _ _ (Simulates.bind (count_same _ _) fun _ _ _ => emit_same _ _)

/-- **A send.** Sends that refer to entries do so to entries that read the same. -/
theorem executeSend_same {B : BlockFixtureEntry → BlockFixtureEntry → Prop}
    (hfixture : Option.Rel SameChain fixture fixture') {send send' : ScriptSend}
    (hsend : RuleSendRel SameEntry B send send') (request : ReceivedRequest)
    (stateBefore : ServerCsState) :
    Simulates SameSession Eq (executeSend send request fixture stateBefore)
      (executeSend send' request fixture' stateBefore) := by
  have hreturn : ∀ {x y : ChainSyncServer Unit}, Simulates SameSession (fun _ _ => True) x y →
      Simulates SameSession Eq (x >>= fun _ => pure false) (y >>= fun _ => pure false) :=
    fun hxy => Simulates.bind hxy fun _ _ _ => Simulates.pure rfl
  cases hsend with
  | sequence => exact Simulates.ofExcept trivial
  | single hsend =>
    cases hsend with
    | rollForward tip hsource => exact hreturn (rollForward_same hfixture hsource tip stateBefore)
    | block => exact Simulates.ofExcept trivial
    | stream => exact Simulates.ofExcept trivial
    | plain send hplain =>
      cases send with
      | rollForward => exact hplain.elim
      | rollBackward point tip => exact hreturn (rollBackward_same hfixture point tip stateBefore)
      | intersectFound point tip =>
        exact hreturn (intersectFound_same hfixture point tip stateBefore)
      | intersectNotFound tip => exact hreturn (intersectNotFound_same hfixture tip stateBefore)
      | cursorFindIntersect => exact hreturn (cursorFindIntersect_same request stateBefore)
      | cursorAdvance => exact hreturn (cursorAdvance_same stateBefore)
      | awaitReply holdSecs =>
        refine Simulates.bind (noteSend_same _ _) fun _ _ _ => ?_
        refine Simulates.bind (count_same _ _) fun _ _ _ => ?_
        refine Simulates.bind (sendMessage_same _) fun _ _ _ => ?_
        exact Simulates.bind (emit_same _ _) fun _ _ _ => Simulates.pure rfl
      | rawBytes bytes =>
        refine Simulates.bind (noteSend_same _ _) fun _ _ _ => ?_
        refine Simulates.bind (sendRaw_same _) fun _ _ _ => ?_
        exact Simulates.bind (emit_same _ _) fun _ _ _ => Simulates.pure rfl
      | wait => exact Simulates.pure rfl
      | disconnect => exact Simulates.pure rfl
      | _ => exact Simulates.ofExcept trivial

/-! ## The loop -/

/-- The next rules of two scripts. -/
theorem nextRule_rel {H : FixtureEntry → FixtureEntry → Prop}
    {B : BlockFixtureEntry → BlockFixtureEntry → Prop} {rules rules' : List ScriptRule}
    (h : List.Forall₂ (RuleRel H B) rules rules') (matchesOn : On → Bool) (ruleIdx : Nat) :
    Option.Rel (fun r r' => r.1 = r'.1 ∧ RuleRel H B r.2 r'.2) (nextRule matchesOn ruleIdx rules)
      (nextRule matchesOn ruleIdx rules') := by
  induction h generalizing ruleIdx with
  | nil => exact .none
  | @cons rule rule' rest rest' hrule _ ih =>
    rw [nextRule, nextRule, hrule.on]
    by_cases hm : matchesOn rule'.on
    · rw [if_pos hm, if_pos hm]
      exact .some ⟨rfl, hrule⟩
    · rw [if_neg hm, if_neg hm]
      exact ih (ruleIdx + 1)

theorem receive_same (request : ReceivedRequest) :
    Simulates SameSession (fun _ _ => True) (receive request) (receive request) := by
  refine Simulates.bind (Simulates.modify fun _ _ h => ⟨h.state, h.cursor, h.sent⟩) fun _ _ _ => ?_
  refine Simulates.bind Simulates.get fun s t h => ?_
  rw [h.state]
  exact Simulates.bind (Simulates.modify fun _ _ h => ⟨rfl, h.cursor, h.sent⟩) fun _ _ _ =>
    emit_same _ _

theorem applyRule_same (pos pos' : Nat) (rule rule' : ScriptRule) :
    Simulates SameSession (fun _ _ => True) (applyRule pos rule) (applyRule pos' rule') :=
  Simulates.bind (emit_same _ _) fun _ _ _ => count_same _ _

/-- Sends of one kind move the state alike. -/
theorem settle_same {H : FixtureEntry → FixtureEntry → Prop}
    {B : BlockFixtureEntry → BlockFixtureEntry → Prop} {send send' : ScriptSend}
    (hsend : RuleSendRel H B send send') :
    Simulates SameSession (fun _ _ => True) (settle send) (settle send') := by
  have hafter : ∀ state : ServerCsState, state.afterSend send = state.afterSend send' := by
    intro state
    cases hsend with
    | sequence => rfl
    | single hsend => cases hsend <;> rfl
  refine Simulates.bind Simulates.get fun s t h => ?_
  rw [h.state, hafter]
  exact Simulates.modify fun _ _ h => ⟨rfl, h.cursor, h.sent⟩

theorem serveLoop_same {B : BlockFixtureEntry → BlockFixtureEntry → Prop}
    (hfixture : Option.Rel SameChain fixture fixture') {rules rules' : List ScriptRule}
    (hrules : List.Forall₂ (RuleRel SameEntry B) rules rules') (ruleIdx : Nat)
    (incoming : List ReceivedRequest) :
    Simulates SameSession (fun _ _ => True) (serveLoop rules fixture ruleIdx incoming)
      (serveLoop rules' fixture' ruleIdx incoming) := by
  induction incoming generalizing ruleIdx with
  | nil => exact Simulates.pure trivial
  | cons request incoming ih =>
    rw [serveLoop, serveLoop]
    refine Simulates.bind (receive_same request) fun _ _ _ => ?_
    by_cases hdone : request = .done
    · rw [if_pos hdone, if_pos hdone]
      exact Simulates.pure trivial
    · rw [if_neg hdone, if_neg hdone]
      have hnext := nextRule_rel (List.forall₂_drop ruleIdx hrules) request.matchesOn ruleIdx
      generalize nextRule request.matchesOn ruleIdx (rules.drop ruleIdx) = next at hnext
      generalize nextRule request.matchesOn ruleIdx (rules'.drop ruleIdx) = next' at hnext
      cases hnext with
      | none => exact Simulates.ofExcept trivial
      | @some r r' hr =>
        obtain ⟨pos, rule⟩ := r
        obtain ⟨pos', rule'⟩ := r'
        obtain ⟨rfl, hrule⟩ := hr
        refine Simulates.bind (applyRule_same _ _ _ _) fun _ _ _ => ?_
        refine Simulates.bind Simulates.get fun s t h => ?_
        rw [h.state]
        refine Simulates.bind (executeSend_same hfixture hrule.send request t.state) ?_
        intro done _ heq
        subst heq
        refine Simulates.bind (settle_same hrule.send) fun _ _ _ => ?_
        cases done with
        | true => exact Simulates.pure trivial
        | false =>
          rw [hrule.repeatable]
          exact ih _

/-- **Fixtures that read the same are served the same**, to every client. -/
theorem executeResponseScript_same {B : BlockFixtureEntry → BlockFixtureEntry → Prop}
    (hfixture : Option.Rel SameChain fixture fixture') {rules rules' : List ScriptRule}
    (hrules : List.Forall₂ (RuleRel SameEntry B) rules rules') (incoming : List ReceivedRequest) :
    ((executeResponseScript rules fixture incoming).run (session fixture)).2.sent =
      ((executeResponseScript rules' fixture' incoming).run (session fixture')).2.sent := by
  have hsession : SameSession (session fixture) (session fixture') := by
    refine ⟨rfl, ?_, rfl⟩
    cases hfixture with
    | none => exact .none
    | some hchain => exact .some ⟨hchain, rfl⟩
  have hsim : Simulates SameSession (fun _ _ => True)
      (executeResponseScript rules fixture incoming)
      (executeResponseScript rules' fixture' incoming) := by
    refine Simulates.bind (emit_same _ _) fun _ _ _ => ?_
    refine Simulates.bind (serveLoop_same hfixture hrules 0 incoming) fun _ _ _ => ?_
    refine Simulates.bind Simulates.get fun s t h => ?_
    exact Simulates.bind (emit_same _ _) fun _ _ _ => Simulates.pure trivial
  exact (hsim _ _ hsession).2.sent

end Steps

end Proof

end ConformanceHarness
