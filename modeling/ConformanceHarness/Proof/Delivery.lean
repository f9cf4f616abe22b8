import ConformanceHarness.Proof.Conversion

/-!
# What a session delivers

A session delivers the entries its script refers to, those its cursor reaches and
those of a range of its fixture. All of them are entries of the fixture the step was
given, so a property of that fixture's entries is one of everything delivered.
-/

namespace ConformanceHarness.Proof

open ConformanceHarness.Lib (Prog)
open ConformanceHarness.Lib.Prog (Within)
open Session

/-- What a mapped list holds. -/
theorem mapEntries_mem {α β : Type} {f : α → Except Fault β} {l : List α} {bs : List β}
    (h : mapEntries f l = .ok bs) : ∀ b ∈ bs, ∃ a ∈ l, f a = .ok b := by
  induction l generalizing bs with
  | nil =>
    obtain rfl := Except.ok.inj h
    intro b hb
    exact absurd hb List.not_mem_nil
  | cons a rest ih =>
    rw [mapEntries] at h
    rcases ha : f a with e | b <;> rw [ha] at h
    · exact nomatch h
    · rcases hrest : mapEntries f rest with e | bs' <;> rw [hrest] at h
      · exact nomatch h
      · obtain rfl := Except.ok.inj h
        intro c hc
        rcases List.mem_cons.mp hc with rfl | hc
        · exact ⟨a, List.mem_cons_self, ha⟩
        · obtain ⟨a', ha', hfa⟩ := ih hrest c hc
          exact ⟨a', List.mem_cons_of_mem a ha', hfa⟩

/-! ## Block-Fetch -/

section Blocks

open BlockFetch

/-- A range holds entries of the chain. -/
theorem findRange_mem {chain : BlockFixtureChain} {fromPoint toPoint : Point}
    {entries : List BlockFixtureEntry}
    (h : chain.findRange fromPoint toPoint = .ok (some entries)) :
    ∀ e ∈ entries, e ∈ chain.entries := by
  rw [BlockFixtureChain.findRange] at h
  rcases hfrom : chain.findEntryIdx fromPoint with f | _ | fromIdx <;> rw [hfrom] at h
  · exact nomatch h
  · exact nomatch h
  · rcases hto : chain.findEntryIdx toPoint with f | _ | toIdx <;> rw [hto] at h
    · exact nomatch h
    · exact nomatch h
    · dsimp only at h
      split at h
      · exact nomatch h
      · obtain rfl := Option.some.inj (Except.ok.inj h)
        intro e he
        exact List.mem_of_mem_take (List.mem_of_mem_drop he)

/-- Every block delivered that is not a literal one satisfies `Q`. -/
def BlocksFrom (Q : BlockFixtureEntry → Prop) (s : BlockFetchSession) : Prop :=
  ∀ e, .fixtureEntry e ∈ s.delivered → Q e

variable {Q : BlockFixtureEntry → Prop} {fixture : Option BlockFixtureChain}

/-- A batch delivers its blocks. -/
theorem sendStream_delivered (stateBefore : ServerBfState)
    (entries : Option (List (BlockSource × List UInt8))) (s : BlockFetchSession) :
    ∃ s', (sendStream stateBefore entries).run s = (.ok (), s') ∧
      s'.delivered = s.delivered ++ (entries.getD []).map Prod.fst := by
  rcases entries with _ | _ | ⟨entry, rest⟩
  · exact ⟨_, rfl, (List.append_nil _).symm⟩
  · exact ⟨_, rfl, (List.append_nil _).symm⟩
  · obtain ⟨s', hrun, -, hdelivered, -⟩ :=
      sendStream_run stateBefore (List.cons_ne_nil entry rest) s
    exact ⟨s', hrun, hdelivered⟩

/-- The sources of decoded blocks are those that were decoded. -/
theorem mapEntries_sources {α : Type} {source : α → BlockSource}
    {body : α → Except Fault (List UInt8)} {l : List α}
    {entries : List (BlockSource × List UInt8)}
    (h : mapEntries (fun a => (body a).map fun bytes => (source a, bytes)) l = .ok entries) :
    ∀ b ∈ entries.map Prod.fst, ∃ a ∈ l, source a = b := by
  intro b hb
  obtain ⟨entry, hentry, rfl⟩ := List.mem_map.mp hb
  obtain ⟨a, ha, hbody⟩ := mapEntries_mem h entry hentry
  rcases hbytes : body a with f | bytes <;> rw [hbytes] at hbody
  · exact nomatch hbody
  · obtain rfl := Except.ok.inj hbody
    exact ⟨a, ha, rfl⟩

/-- The blocks of a batch come from the send, or from the fixture. -/
theorem streamEntries_from (hfix : ∀ chain, fixture = some chain → ∀ e ∈ chain.entries, Q e)
    {request : BlockFetchRequest} {sources : StreamBatchSources}
    (hsources : ∀ l, sources = .explicit l → ∀ e, .fixtureEntry e ∈ l → Q e)
    {entries : Option (List (BlockSource × List UInt8))}
    (h : streamEntries request fixture sources = .ok entries) :
    ∀ e, .fixtureEntry e ∈ (entries.getD []).map Prod.fst → Q e := by
  intro e he
  rcases entries with _ | entries
  · exact absurd he List.not_mem_nil
  cases sources with
  | explicit l =>
    rw [streamEntries] at h
    rcases hl : mapEntries (fun s => (blockSourceBytes s).map fun body => (s, body)) l
      with f | l' <;> rw [hl] at h
    · exact nomatch h
    · obtain rfl := Option.some.inj (Except.ok.inj h)
      have hl : mapEntries (fun s => (blockSourceBytes s).map fun body => (id s, body)) l =
        .ok l' := hl
      obtain ⟨source, hmem, rfl⟩ := mapEntries_sources hl _ he
      exact hsources l rfl e hmem
  | fromRequest =>
    cases request with
    | clientDone =>
      obtain rfl := Option.some.inj (Except.ok.inj h)
      exact absurd he List.not_mem_nil
    | requestRange fromPoint toPoint =>
      cases fixture with
      | none => exact nomatch h
      | some chain =>
        rw [streamEntries] at h
        rcases hrange : chain.findRange fromPoint toPoint with f | _ | found <;>
          simp only [hrange] at h
        · exact nomatch h
        · exact nomatch h
        · rcases hl : mapEntries
            (fun e => e.bodyBytes.map fun body => (BlockSource.fixtureEntry e, body)) found
            with f | l' <;> rw [hl] at h
          · exact nomatch h
          · obtain rfl := Option.some.inj (Except.ok.inj h)
            obtain ⟨e', hmem, heq⟩ := mapEntries_sources hl _ he
            obtain rfl := BlockSource.fixtureEntry.inj heq
            exact hfix chain rfl e' (findRange_mem hrange e' hmem)

/-- A send of the script delivers what it refers to, or what the fixture holds. -/
theorem executeSingleSend_blocksFrom {H : FixtureEntry → FixtureEntry → Prop}
    (hfix : ∀ chain, fixture = some chain → ∀ e ∈ chain.entries, Q e) {send : ScriptSend}
    (hsend : SendRel H (fun e _ => Q e) send send) (request : BlockFetchRequest)
    (s : BlockFetchSession) (hs : BlocksFrom Q s) :
    BlocksFrom Q ((executeSingleSend send request fixture s.state).run s).2 := by
  cases send with
  | block source =>
    rw [executeSingleSend]
    rcases blockSourceBytes source with f | body
    · exact hs
    · intro e he
      rcases List.mem_append.mp he with he | he
      · exact hs e he
      · obtain rfl := List.mem_singleton.mp he
        cases hsend with
        | block h => cases h with | entry h => exact h
        | plain _ h => exact h.elim
  | streamBatch sources =>
    rw [executeSingleSend]
    rcases hentries : streamEntries request fixture sources with f | entries
    · exact hs
    · let noted := ((noteSend (.streamBatch sources) : BlockFetchServer Unit).run s).2
      obtain ⟨s', hrun, hdel⟩ := sendStream_delivered s.state entries noted
      have hend : ((do
          let entries ← Prog.ofExcept (.ok entries)
          noteSend (.streamBatch sources)
          sendStream s.state entries
          return false : BlockFetchServer Bool).run s).2 = s' := by
        show ((sendStream s.state entries >>= fun _ => pure false).run noted).2 = s'
        rw [Prog.run_bind_ok hrun]
        rfl
      rw [hend]
      intro e he
      rw [hdel] at he
      rcases List.mem_append.mp he with he | he
      · exact hs e he
      · refine streamEntries_from hfix ?_ hentries e he
        rintro l rfl e he
        cases hsend with
        | stream h =>
          have hself := List.forall₂_same.mp h _ he
          cases hself with | entry h => exact h
        | plain _ h => exact h.elim
  | _ => exact hs

/-- **A Block-Fetch session delivers what its script refers to, or what the fixture holds.** -/
theorem executeBlockFetchScript_blocksFrom {H : FixtureEntry → FixtureEntry → Prop}
    (hfix : ∀ chain, fixture = some chain → ∀ e ∈ chain.entries, Q e) {rules : List ScriptRule}
    (hrules : ∀ rule ∈ rules, RuleRel H (fun e _ => Q e) rule rule)
    (incoming : List BlockFetchRequest) :
    BlocksFrom Q ((executeBlockFetchScript rules fixture incoming).run session).2 := by
  have hkeeps : Keeps fun s s' : BlockFetchSession => BlocksFrom Q s → BlocksFrom Q s' :=
    { refl := fun _ h => h
      trans := fun _ _ _ h h' hs => h' (h hs)
      internal := fun _ _ h => h }
  refine executeBlockFetchScript_within hkeeps (fun _ _ h => h) (fun _ _ h => h) ?_ incoming session
    ?_
  · intro rule hrule send hsub request s hs
    have hsends := ruleSendRel_subSends (hrules rule hrule).send
    exact executeSingleSend_blocksFrom hfix (List.forall₂_same.mp hsends send hsub) request s hs
  · intro e he
    exact absurd he List.not_mem_nil

end Blocks

/-! ## Chain-Sync -/

section Headers

open ChainSync

variable {P : FixtureEntry → Prop} {fixture : Option FixtureChain}

/-- A cursor advances along its chain. -/
theorem advance_chain {cursor next : Cursor} {entry : Option FixtureEntry}
    (h : cursor.advance = .ok (next, entry)) :
    next.chain = cursor.chain ∧ ∀ e, entry = some e → e ∈ cursor.chain.entries := by
  simp only [Cursor.advance, Cursor.entryAt] at h
  split at h
  · obtain ⟨rfl, rfl⟩ := Prod.mk.inj (Except.ok.inj h)
    exact ⟨rfl, fun e he => nomatch he⟩
  · split at h
    · obtain ⟨rfl, rfl⟩ := Prod.mk.inj (Except.ok.inj h)
      exact ⟨rfl, fun e he => nomatch he⟩
    · rcases hget : cursor.chain.entries[Cursor.asUsize (cursor.pos + 1 - 1)]? with _ | found <;>
        rw [hget] at h
      · exact nomatch h
      · obtain ⟨rfl, rfl⟩ := Prod.mk.inj (Except.ok.inj h)
        refine ⟨rfl, fun e he => ?_⟩
        obtain rfl := Option.some.inj he
        exact List.mem_of_getElem? hget

/-- Every header delivered that is not a literal one satisfies `P`, and so does every
header the cursor can reach. -/
structure HeadersFrom (P : FixtureEntry → Prop) (s : ChainSyncSession) : Prop where
  delivered : ∀ e, .fixtureEntry e ∈ s.delivered → P e
  cursor : ∀ cursor, s.locals.cursor = some cursor → ∀ e ∈ cursor.chain.entries, P e

/-- The relation of a step that keeps `HeadersFrom`. -/
abbrev KeepsHeaders (P : FixtureEntry → Prop) (s s' : ChainSyncSession) : Prop :=
  HeadersFrom P s → HeadersFrom P s'

variable {request : ReceivedRequest} {s : ChainSyncSession}

theorem cursorFindIntersect_headersFrom :
    SendKeeps (KeepsHeaders P) (KeepsHeaders P) .cursorFindIntersect request fixture s := by
  obtain ⟨state, ⟨counters, _ | cursor⟩, sent, trace, ioState, performed, delivered⟩ := s
  · exact fun h => h
  rw [SendKeeps, executeSend_cursorFindIntersect, cursorFindIntersect, Prog.bind_assoc,
    Prog.run_bind_ok (x := needCursor _) (a := cursor) rfl, Prog.bind_assoc,
    Prog.run_bind_ok (x := countIntersect) (a := ()) rfl]
  rcases cursor.tip with f | tip
  · exact fun h => ⟨h.delivered, h.cursor⟩
  rcases cursor.findIntersect request.points with f | _ | pos
  · exact fun h => ⟨h.delivered, h.cursor⟩
  · exact fun h => ⟨h.delivered, h.cursor⟩
  · have hmoved : ∀ c, some (cursor.setPos pos) = some c →
        c.chain = cursor.chain := fun c hc => Option.some.inj hc ▸ rfl
    rw [Prog.bind_assoc, Prog.run_ofExcept_ok_bind, Prog.bind_assoc, Prog.run_ofExcept_ok_bind]
    dsimp only
    rw [Prog.bind_assoc, Prog.run_bind_ok (x := putCursor _) (a := ()) rfl]
    rcases (cursor.setPos pos).currentPoint with f | foundPt
    · exact fun h => ⟨h.delivered, fun c hc => hmoved c hc ▸ h.cursor cursor rfl⟩
    · exact fun h => ⟨h.delivered, fun c hc => hmoved c hc ▸ h.cursor cursor rfl⟩

theorem cursorAdvance_headersFrom :
    SendKeeps (KeepsHeaders P) (KeepsHeaders P) .cursorAdvance request fixture s := by
  obtain ⟨state, ⟨counters, _ | cursor⟩, sent, trace, ioState, performed, delivered⟩ := s
  · exact fun h => h
  rw [SendKeeps, executeSend_cursorAdvance, cursorAdvance, Prog.bind_assoc,
    Prog.run_bind_ok (x := needCursor _) (a := cursor) rfl]
  rcases cursor.tip with f | tip
  · exact fun h => h
  rcases hadv : cursor.advance with f | ⟨next, entry⟩
  · exact fun h => h
  obtain ⟨hchain, hentry⟩ := advance_chain hadv
  have hmoved : ∀ c, some next = some c → c.chain = cursor.chain :=
    fun c hc => Option.some.inj hc ▸ hchain
  rw [Prog.bind_assoc, Prog.run_ofExcept_ok_bind, Prog.bind_assoc, Prog.run_ofExcept_ok_bind]
  rcases entry with _ | entry
  · exact fun h => ⟨h.delivered, fun c hc => hmoved c hc ▸ h.cursor cursor rfl⟩
  · dsimp only
    rcases entryToHeaderContent entry with f | hc
    · exact fun h => h
    · intro h
      refine ⟨fun e he => ?_, fun c hc => hmoved c hc ▸ h.cursor cursor rfl⟩
      rcases List.mem_append.mp he with he | he
      · exact h.delivered e he
      · obtain rfl := HeaderSource.fixtureEntry.inj (List.mem_singleton.mp he)
        exact h.cursor cursor rfl e (hentry e rfl)

/-- A send of the script delivers what it refers to, or what the cursor reaches. -/
theorem executeSend_headersFrom {B : BlockFixtureEntry → BlockFixtureEntry → Prop}
    {send : ScriptSend} (hsend : RuleSendRel (fun e _ => P e) B send send) :
    SendKeeps (KeepsHeaders P) (KeepsHeaders P) send request fixture s := by
  cases send with
  | cursorFindIntersect => exact cursorFindIntersect_headersFrom
  | cursorAdvance => exact cursorAdvance_headersFrom
  | rollForward source tip =>
    rw [SendKeeps, executeSend_rollForward, rollForward]
    rcases wireTip fixture tip with f | wire
    · exact fun h => h
    rcases headerSourceToContent source with f | hc
    · exact fun h => h
    · intro h
      refine ⟨fun e he => ?_, h.cursor⟩
      rcases List.mem_append.mp he with he | he
      · exact h.delivered e he
      · obtain rfl := List.mem_singleton.mp he
        cases hsend with | single hsend =>
        cases hsend with
        | rollForward _ h => cases h with | entry h => exact h
        | plain _ h => exact h.elim
  | rollBackward point tip =>
    rw [SendKeeps, executeSend_rollBackward, rollBackward]
    rcases wireTip fixture tip with f | wire
    · exact fun h => h
    rcases parsePoint point with f | pt
    · exact fun h => h
    · exact fun h => ⟨h.delivered, h.cursor⟩
  | intersectFound point tip =>
    rw [SendKeeps, executeSend_intersectFound, intersectFound]
    rcases wireTip fixture tip with f | wire
    · exact fun h => h
    rcases parsePoint point with f | pt
    · exact fun h => h
    · exact fun h => ⟨h.delivered, h.cursor⟩
  | intersectNotFound tip =>
    rw [SendKeeps, executeSend_intersectNotFound, intersectNotFound]
    rcases wireTip fixture tip with f | wire
    · exact fun h => h
    · exact fun h => ⟨h.delivered, h.cursor⟩
  | _ => exact fun h => ⟨h.delivered, h.cursor⟩

/-- **A Chain-Sync session delivers what its script refers to, or what its chain holds.** -/
theorem executeResponseScript_headersFrom {B : BlockFixtureEntry → BlockFixtureEntry → Prop}
    (hfix : ∀ chain, fixture = some chain → ∀ e ∈ chain.entries, P e) {rules : List ScriptRule}
    (hrules : ∀ rule ∈ rules, RuleRel (fun e _ => P e) B rule rule)
    (incoming : List ReceivedRequest) :
    HeadersFrom P ((executeResponseScript rules fixture incoming).run (session fixture)).2 := by
  have hkeeps : Keeps (KeepsHeaders P) :=
    { refl := fun _ h => h
      trans := fun _ _ _ h h' hs => h' (h hs)
      internal := fun _ _ h => ⟨h.delivered, h.cursor⟩ }
  have hends : Ends (KeepsHeaders P) (KeepsHeaders P) :=
    { of_keeps := fun _ _ h => h
      before := fun _ _ _ h h' hs => h' (h hs)
      internal := fun _ _ _ _ h hs => ⟨(h hs).delivered, (h hs).cursor⟩ }
  refine executeResponseScript_ends hkeeps hends (fun _ _ h => ⟨h.delivered, h.cursor⟩)
    (fun _ _ h => ⟨h.delivered, h.cursor⟩) ?_ incoming (session fixture) ⟨?_, ?_⟩
  · intro rule hrule request s _
    exact executeSend_headersFrom (hrules rule hrule).send
  · intro e he
    exact absurd he List.not_mem_nil
  · intro cursor hcursor
    rcases fixture with _ | chain
    · exact nomatch hcursor
    · obtain rfl := Option.some.inj hcursor
      exact hfix chain rfl

end Headers

/-! ## The steps -/

/-- A generated script refers to no entry. -/
theorem ruleRel_plain {H : FixtureEntry → FixtureEntry → Prop}
    {B : BlockFixtureEntry → BlockFixtureEntry → Prop} {rule : ScriptRule}
    (h : rule.send.IsPlain) : RuleRel H B rule rule :=
  ⟨rfl, rfl, .single (.plain rule.send h)⟩

theorem generateForBlockFetch_plain (noBlocksDefault : Bool) :
    ∀ rule ∈ generateForBlockFetch noBlocksDefault, rule.send.IsPlain := by
  intro rule hrule
  rcases List.mem_cons.mp hrule with rfl | hrule
  · cases noBlocksDefault <;> trivial
  · obtain rfl := List.mem_singleton.mp hrule
    trivial

theorem generateFromFixture_plain (chain : FixtureChain) (awaitAtTipSecs : UInt64) :
    ∀ rule ∈ generateFromFixture chain awaitAtTipSecs, rule.send.IsPlain := by
  intro rule hrule
  rcases List.mem_append.mp hrule with hrule | hrule
  · rcases List.mem_append.mp hrule with hrule | hrule
    · obtain rfl := List.mem_singleton.mp hrule
      trivial
    · obtain ⟨e, -, rfl⟩ := List.mem_map.mp hrule
      trivial
  · rcases List.mem_cons.mp hrule with rfl | hrule
    · trivial
    · obtain rfl := List.mem_singleton.mp hrule
      trivial

/-- **`serve_block_fetch` delivers what its fixture holds.** -/
theorem serveBlockFetch_blocksFrom {Q : BlockFixtureEntry → Prop} {env : ServeEnv}
    {params : StepParams}
    (hfix : ∀ chain, ServeBlockFetch.fixture env params = .ok (some chain) →
      ∀ e ∈ chain.entries, Q e) (rawParams : Value) (incoming : List BlockFetchRequest) :
    BlocksFrom Q (ServeBlockFetch.run env rawParams params incoming).2 := by
  have hnone : BlocksFrom Q BlockFetch.session := fun e he => absurd he List.not_mem_nil
  rw [ServeBlockFetch.run]
  rcases hfixture : ServeBlockFetch.fixture env params with f | fixture
  · exact hnone
  have hentries : ∀ chain, fixture = some chain → ∀ e ∈ chain.entries, Q e :=
    fun chain hchain => hfix chain (hchain ▸ hfixture)
  dsimp only
  rcases hscript : ServeBlockFetch.script fixture params.noBlocksDefault
    (rawParams.getField "responses") with f | rules
  · exact hnone
  refine executeBlockFetchScript_blocksFrom (H := fun _ _ => True) hentries ?_ incoming
  rcases hresponses : rawParams.getField "responses" with _ | responses <;>
    rw [hresponses, ServeBlockFetch.script] at hscript
  · obtain rfl := Except.ok.inj hscript
    exact fun rule hrule => ruleRel_plain (generateForBlockFetch_plain _ rule hrule)
  · have hcs : ∀ chain, (none : Option FixtureChain) = some chain → ∀ e ∈ chain.entries, True :=
      fun chain h => nomatch h
    exact explicitScript_entries hcs hentries hscript

/-- **`serve_chain_sync` delivers what its fixture holds.** -/
theorem serveChainSync_headersFrom {P : FixtureEntry → Prop} {env : ServeEnv}
    {params : StepParams}
    (hfix : ∀ chain, ServeChainSync.fixture env params = .ok (some chain) →
      ∀ e ∈ chain.entries, P e) (rawParams : Value) (incoming : List ReceivedRequest) :
    HeadersFrom P (ServeChainSync.run env rawParams params incoming).2 := by
  have hstart : ∀ fixture, (∀ chain, fixture = some chain → ∀ e ∈ chain.entries, P e) →
      HeadersFrom P (ChainSync.session fixture) := by
    intro fixture hentries
    refine ⟨fun e he => absurd he List.not_mem_nil, fun cursor hcursor => ?_⟩
    rcases fixture with _ | chain
    · exact nomatch hcursor
    · obtain rfl := Option.some.inj hcursor
      exact hentries chain rfl
  rw [ServeChainSync.run]
  rcases hfixture : ServeChainSync.fixture env params with f | fixture
  · exact hstart none fun chain h => nomatch h
  have hentries : ∀ chain, fixture = some chain → ∀ e ∈ chain.entries, P e :=
    fun chain hchain => hfix chain (hchain ▸ hfixture)
  dsimp only
  rcases hscript : ServeChainSync.script fixture (ServeChainSync.awaitSecs params)
    (rawParams.getField "responses") with f | rules
  · exact hstart fixture hentries
  refine executeResponseScript_headersFrom (B := fun _ _ => True) hentries ?_ incoming
  rcases hresponses : rawParams.getField "responses" with _ | responses <;>
    rw [hresponses] at hscript
  · rcases fixture with _ | chain
    · exact nomatch hscript
    · obtain rfl := Except.ok.inj hscript
      exact fun rule hrule => ruleRel_plain (generateFromFixture_plain chain _ rule hrule)
  · have hbf : ∀ chain, (none : Option BlockFixtureChain) = some chain →
      ∀ e ∈ chain.entries, True :=
      fun chain h => nomatch h
    exact explicitScript_entries hentries hbf hscript

end ConformanceHarness.Proof
