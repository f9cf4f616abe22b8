import ConformanceHarness.Proof.BlockOrigins

/-!
# Chains that break

A `broken_prev_hash` peer fires like an `every_n_slots` peer with the same timing and writes the
same headers. Before the break slot it hashes what the honest peer hashes, from there on it puts
`wrong_hash` where the hash of the block before belongs, and says so. It is the only rule that
does: a block without that label covers the hash of its predecessor.
-/

namespace ConformanceHarness.Proof

open ConformanceHarness Lib

section

variable {blake2b : List UInt8 → List UInt8} {first interval brk : UInt64} {wrong id : String}
  {wrongBytes : List UInt8} {ps qs ps' qs' : PeerState} {events events' : List ProductionEvent}

/-- The context of a `broken_prev_hash` rule whose hash is hex. -/
theorem ruleContext_broken (h : PeerState.decodeHex wrong = .ok wrongBytes) :
    ruleContext (.brokenPrevHash first interval brk wrong) = some (.broken brk wrongBytes) := by
  rw [ruleContext, h]

/-- Before the break slot an honest peer with that id hashes the same. -/
theorem agreeBefore_broken :
    AgreeBefore brk (.broken brk wrongBytes) .honest id id := by
  intro slot prev hslot
  rw [hashInputs, if_neg (UInt64.not_le.mpr hslot)]
  exact ⟨rfl, rfl⟩

/-- The event reports the block, the block is labelled exactly from the break slot on, and from
there on it covers `wrong_hash`. -/
def ReportsBroken (blake2b : List UInt8 → List UInt8) (id : String) (brk : UInt64)
    (wrongBytes : List UInt8) (event : ProductionEvent) (e : ChainEntry) : Prop :=
  Reports event e ∧
    (e.slot < brk → event.defectKind = none) ∧
    (brk ≤ e.slot → event.defectKind = some "broken_prev_hash" ∧
      e.blockHash = syntheticHash blake2b id e.slot wrongBytes)

theorem BuiltIn.reportsBroken {chain : List ChainEntry} {event : ProductionEvent} {e : ChainEntry}
    (h : BuiltIn blake2b (.broken brk wrongBytes) id chain event e) :
    ReportsBroken blake2b id brk wrongBytes event e := by
  obtain ⟨hreports, before, after, -, hhash, hdefect⟩ := h
  refine ⟨hreports, fun hlt => ?_, fun hge => ?_⟩
  · rw [hdefect, hashInputs, if_neg (UInt64.not_le.mpr hlt)]
  · rw [hdefect, hhash, hashInputs, if_pos hge]
    exact ⟨rfl, rfl⟩

/-- The trail of a peer whose rule is broken. -/
theorem BuiltTrail.broken (h : BuiltTrail blake2b id ps ps' events)
    (hrule : ps.productionRule = some (.brokenPrevHash first interval brk wrong))
    (hwrong : PeerState.decodeHex wrong = .ok wrongBytes) :
    ∃ entries, ps'.chainEntries = ps.chainEntries ++ entries ∧
      List.Forall₂ (ReportsBroken blake2b id brk wrongBytes) (notSkipped events) entries := by
  obtain ⟨hsame, entries, hchain, hbuilt⟩ := h
  refine ⟨entries, hchain, hbuilt.imp ?_⟩
  rintro event e ⟨rule, ctx, hr, hctx, hin⟩
  obtain rfl := Option.some.inj (hr.symm.trans (hsame.trans hrule))
  obtain rfl := Option.some.inj (hctx.symm.trans (ruleContext_broken hwrong))
  exact hin.reportsBroken

/-- The trail of any peer, without what was hashed. -/
theorem BuiltTrail.reports (h : BuiltTrail blake2b id ps ps' events) :
    ∃ entries, ps'.chainEntries = ps.chainEntries ++ entries ∧
      List.Forall₂ Reports (notSkipped events) entries := by
  obtain ⟨-, entries, hchain, hbuilt⟩ := h
  refine ⟨entries, hchain, hbuilt.imp ?_⟩
  rintro event e ⟨_, _, _, _, hreports, -⟩
  exact hreports

/-- Two chains that grew from one, compared block by block, agree block by block in what is new. -/
theorem forall₂_new {R : ChainEntry → ChainEntry → Prop} {chain entries entries' : List ChainEntry}
    (h : List.Forall₂ R (chain ++ entries) (chain ++ entries')) : List.Forall₂ R entries entries' := by
  have hdrop := List.forall₂_drop chain.length h
  rwa [List.drop_left, List.drop_left] at hdrop

/-! ## Labels -/

/-- The event reports the block, and unless it says `broken_prev_hash` the block covers the hash
of the block before it. -/
def LinkedTruly (blake2b : List UInt8 → List UInt8) (id : String) (ps : PeerState)
    (event : ProductionEvent) (e : ChainEntry) : Prop :=
  Reports event e ∧
    (event.defectKind ≠ some "broken_prev_hash" →
      ∃ rule ctx before after, ps.productionRule = some rule ∧ ruleContext rule = some ctx ∧
        ps.chainEntries = before ++ e :: after ∧
        e.blockHash = syntheticHash blake2b (hashInputs ctx id e.slot (prevHash before)).1 e.slot
          (prevHash before))

/-- **The label is what decides**: without it the previous hash is the true one. -/
theorem hashInputs_prev {ctx : RuleContext} {slot : UInt64} {prev : List UInt8}
    (h : (hashInputs ctx id slot prev).2.2 ≠ some "broken_prev_hash") :
    (hashInputs ctx id slot prev).2.1 = prev := by
  cases ctx with
  | honest => rfl
  | sparse => rfl
  | forked forkSlot forkMarker canonicalRoot =>
      rw [hashInputs]
      split <;> rfl
  | broken breakAtSlot bytes =>
      rw [hashInputs] at h ⊢
      split at h
      · exact absurd rfl h
      · rename_i hlt
        rw [if_neg hlt]

theorem Built.linkedTruly {event : ProductionEvent} {e : ChainEntry}
    (h : Built blake2b id ps event e) : LinkedTruly blake2b id ps event e := by
  obtain ⟨rule, ctx, hrule, hctx, hreports, before, after, hchain, hhash, hdefect⟩ := h
  refine ⟨hreports, fun hlabel => ⟨rule, ctx, before, after, hrule, hctx, hchain, ?_⟩⟩
  rw [hdefect] at hlabel
  rw [hhash, hashInputs_prev hlabel]

end

section

variable {blake2b : List UInt8 → List UInt8} {first interval brk : UInt64} {wrong id : String}
  {start start' : Option UInt64} {peers peers' : PeerMap} {vars vars' : VarStore}
  {steps steps' : List StepDef} {c c' : Code Segment} {s s' : RunState} {ps qs : PeerState}

/-- **A broken chain breaks where it says.** A `broken_prev_hash` peer and an `every_n_slots` peer
with the same id and timing that start from one chain, in two runs with the same time advances,
append the same slots, numbers and headers, and the same hashes before the break slot; from there
on each block of the first is labelled and covers `wrong_hash`. And in every run, under every
rule, a block that is not labelled so covers the hash of its predecessor. -/
theorem broken_where_it_says
    (h : Reaches (ExecutesAdvancing blake2b id) (runSteps steps, .initial start peers vars) (c, s))
    (h' : Reaches (ExecutesAdvancing blake2b id)
      (runSteps steps', .initial start' peers' vars') (c', s'))
    (hsame : s.handed = s'.handed) (hps : peers id = some ps) (hqs : peers' id = some qs)
    (hrule : ps.productionRule = some (.brokenPrevHash first interval brk wrong))
    (hrule' : qs.productionRule = some (.everyNSlots first interval))
    (hlength : (strBytes wrong).length = 64) (hdigits : ∀ b ∈ strBytes wrong, (hexDigit b).isSome)
    (hchain : ps.chainEntries = qs.chainEntries) :
    (∃ ps' qs' entries entries' wrongBytes, s.peers id = some ps' ∧ s'.peers id = some qs' ∧
      PeerState.decodeHex wrong = .ok wrongBytes ∧
      ps'.chainEntries = ps.chainEntries ++ entries ∧
      qs'.chainEntries = qs.chainEntries ++ entries' ∧
      List.Forall₂ (fun e e' => servedPart e = servedPart e' ∧
        (e.slot < brk → e.blockHash = e'.blockHash)) entries entries' ∧
      List.Forall₂ (ReportsBroken blake2b id brk wrongBytes) (notSkipped (eventsOf id s.events))
        entries ∧
      List.Forall₂ Reports (notSkipped (eventsOf id s'.events)) entries') ∧
    ∀ steps start peers vars s, RunsTo blake2b steps (RunState.initial start peers vars) s →
      ∀ id ps, s.peers id = some ps →
        List.Forall₂ (LinkedTruly blake2b id ps) (notSkipped (eventsOf id s.events))
          (s.produced id) := by
  constructor
  · obtain ⟨wrongBytes, hwrong⟩ := decodeHex_of_digits hlength hdigits
    obtain ⟨ps', hps', hadv⟩ := reaches_advancedTo h hps
    obtain ⟨qs', hqs', hadv'⟩ := reaches_advancedTo h' hqs
    obtain ⟨entries, hentries, htrail⟩ := (advancePeer_built hadv).broken hrule hwrong
    obtain ⟨entries', hentries', htrail'⟩ := (advancePeer_built hadv').reports
    rw [← hsame] at hadv'
    have hforked : ForkedChains brk ps' qs' :=
      advancePeer_forkedChains hrule hrule' rfl rfl (ruleContext_broken hwrong) rfl
        agreeBefore_broken hadv hadv' (forkedChains_of_eq brk hchain)
    refine ⟨ps', qs', entries, entries', wrongBytes, hps', hqs', hwrong, hentries, hentries', ?_,
      htrail, htrail'⟩
    rw [ForkedChains, hentries, hentries', hchain] at hforked
    exact forall₂_new hforked
  · intro steps start peers vars s hruns id ps hps
    have hbuilt := allBuilt_runs hruns id
    rw [hps] at hbuilt
    exact hbuilt.imp fun _ _ hb => hb.linkedTruly

end

/-! ## A peer that breaks at slot 7 -/

/-- A peer that produces at slots 5 and 7. -/
def timedPeer (rule : ProductionRule) : PeerMap :=
  PeerMap.insert (fun _ => none) "p" { PeerState.new with productionRule := some rule }

theorem timedPeer_iterOrder (rule : ProductionRule) : (timedPeer rule).IterOrder ["p"] := by
  refine ⟨List.pairwise_singleton _ _, fun id => ?_⟩
  rw [timedPeer, PeerMap.insert, List.mem_singleton]
  split <;> simp [*]

/-- Sixty-four digits. -/
def aaHash : String := "aaaaaaaaaaaaaaaaaaaaaaaaaaaaaaaaaaaaaaaaaaaaaaaaaaaaaaaaaaaaaaaa"

/-- Blake2b-256 of what the two peers hash: `p` at slot 5 over zeros, and at slot 7 over bytes
`0xaa` or over the first digest. -/
def breakDigest (input : List UInt8) : List UInt8 :=
  if input.getD 8 0 = 5 then slotFiveDigest
  else if input.getD 9 0 = 0xaa then
    [42, 198, 138, 182, 224, 92, 65, 216, 231, 67, 171, 136, 14, 12, 253, 143, 95, 27, 21, 106, 6,
      188, 231, 172, 39, 99, 184, 239, 186, 144, 86, 178]
  else
    [92, 95, 64, 214, 199, 94, 246, 31, 147, 170, 202, 164, 41, 245, 97, 153, 128, 92, 229, 129, 1,
      13, 140, 250, 225, 25, 49, 81, 93, 188, 215, 186]

/-- A run of one tick of such a peer, if its rule can be evaluated. -/
theorem timedPeer_reaches (rule : ProductionRule)
    (h : (applyLocked breakDigest ["p"] (RunState.initial (some 7) (timedPeer rule) fun _ => none)
      0 7).isSome) :
    ∃ c s, s.handed = [(0, 7)] ∧ Reaches (ExecutesAdvancing breakDigest "p")
      (runSteps [tickSeven], .initial (some 0) (timedPeer rule) fun _ => none) (c, s) := by
  obtain ⟨s, hs⟩ := Option.isSome_iff_exists.mp h
  obtain ⟨c, hreach⟩ := tickSeven_advancing (timedPeer_iterOrder rule) hs "p"
  refine ⟨c, s, ?_, hreach⟩
  obtain ⟨r, -, rfl⟩ := Option.map_eq_some_iff.mp hs
  rfl

theorem broken_where_it_says_seven :
    (∃ (s s' : RunState) (ps' qs' : PeerState) (entries entries' : List ChainEntry)
        (wrongBytes : List UInt8), s.peers "p" = some ps' ∧ s'.peers "p" = some qs' ∧
      PeerState.decodeHex aaHash = .ok wrongBytes ∧
      ps'.chainEntries = [] ++ entries ∧ qs'.chainEntries = [] ++ entries' ∧
      List.Forall₂ (fun e e' => servedPart e = servedPart e' ∧
        (e.slot < 7 → e.blockHash = e'.blockHash)) entries entries' ∧
      List.Forall₂ (ReportsBroken breakDigest "p" 7 wrongBytes) (notSkipped (eventsOf "p" s.events))
        entries ∧
      List.Forall₂ Reports (notSkipped (eventsOf "p" s'.events)) entries') ∧
    ∀ steps start peers vars s, RunsTo breakDigest steps (RunState.initial start peers vars) s →
      ∀ id ps, s.peers id = some ps →
        List.Forall₂ (LinkedTruly breakDigest id ps) (notSkipped (eventsOf id s.events))
          (s.produced id) := by
  obtain ⟨c, s, hhanded, hreach⟩ :=
    timedPeer_reaches (.brokenPrevHash 5 2 7 aaHash) (by decide +kernel)
  obtain ⟨c', s', hhanded', hreach'⟩ :=
    timedPeer_reaches (.everyNSlots 5 2) (by decide +kernel)
  obtain ⟨hbroken, hlinked⟩ := broken_where_it_says hreach hreach' (hhanded.trans hhanded'.symm)
    (PeerMap.insert_self ..) (PeerMap.insert_self ..) rfl rfl (by decide +kernel)
    (by decide +kernel) rfl
  exact ⟨⟨s, s', hbroken⟩, hlinked⟩

end ConformanceHarness.Proof
