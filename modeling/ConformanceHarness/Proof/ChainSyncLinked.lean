import ConformanceHarness.Proof.ChainSyncParties
import ConformanceHarness.Proof.HonestTurns

/-!
# A Chain-Sync client and a server that talk to each other

`run_chain_sync` on one end of a connection, a server that serves a fixture on the other, and
channels that deliver when they like. Whatever is delivered first, the client collects the entries
of the fixture after the first of its points, in order, each once, until it has as many as it
wants. If there are that many, both sessions complete and report the same number of headers; if
not, the client has them all and waits.
-/

namespace ConformanceHarness

open ConformanceHarness.Lib (Prog)
open ConformanceHarness.Lib.Duplex
open ConformanceHarness.Lib.Quota
open ChainSyncClient

/-- What the harness relies on: points with hashes of 32 bytes are read as they are, and an
`AwaitReply` brings nothing. -/
structure ChainSyncLibrary.Reads (lib : ChainSyncLibrary) : Prop where
  found : ∀ point tip, WireSized point → WireSized tip.point →
    lib.intersect (.message (.intersectFound point tip)) =
      .ok (some (toNcPoint point, toNcTip tip))
  notFound : ∀ tip, WireSized tip.point →
    lib.intersect (.message (.intersectNotFound tip)) = .ok none
  header : ∀ content tip, WireSized tip.point →
    lib.next (.message (.rollForward content tip)) =
      .ok (some (.rollForward (lib.header content) (toNcTip tip)))
  awaitReply : lib.next (.message .awaitReply) = .ok none

/-- A header that was captured of an entry. -/
structure CapturedAs (e : FixtureEntry) (h : CapturedHeader) : Prop where
  slot : h.slot = e.slot
  hash : Fixture.decodeHexUnchecked e.blockHash = .ok h.blockHash
  blockNumber : h.blockNumber = e.blockNumber
  cbor : Fixture.decodeHex e.cborHex = .ok h.cbor
  variant : h.variant = e.variant

/-- A fixture that says of its headers what the library reads in them. -/
structure ChainSyncLibrary.Replays (lib : ChainSyncLibrary) (chain : FixtureChain) : Prop where
  decodes : chain.Decodes
  anchor : WireSized chain.anchor
  truthful : ∀ e ∈ chain.entries,
    ∃ h, Proof.capturedOf (lib.header (ChainSync.contentOf e)) = some h ∧ CapturedAs e h

namespace Proof

open ChainSync (intersectReply headerReply contentOf countHeaders)
open ChainSync (serveLoop)
open FixtureServing (started)

section

variable {lib : ChainSyncLibrary} {chain : FixtureChain} {tip : Tip} {found : Option Point}
  {points : List Point} {offered : List FixtureEntry} {awaitSecs : UInt64}

theorem joined_subset (h : Joined chain points found offered) : offered ⊆ chain.entries := by
  cases h with
  | found h => exact List.drop_subset _ _
  | notFound h => exact List.nil_subset _

theorem joined_length_le (h : Joined chain points found offered) :
    offered.length ≤ chain.entries.length := by
  cases h with
  | found h => rw [List.length_drop]; omega
  | notFound h => exact Nat.zero_le _

/-- Every point of the fixture has a hash of 32 bytes. -/
theorem wireSized_entry (h : lib.Replays chain) {e : FixtureEntry} (he : e ∈ chain.entries)
    {p : Point} (hp : e.point = .ok p) : WireSized p := by
  obtain ⟨header, hcaptured, hof⟩ := h.truthful e he
  rw [point_of_hash hof.hash] at hp
  obtain rfl := Except.ok.inj hp
  show header.blockHash.length = 32
  unfold capturedOf at hcaptured
  split at hcaptured
  · next hash _ _ =>
    obtain rfl := Option.some.inj hcaptured
    exact hash.property
  · cases hcaptured

theorem wireSized_tip (h : lib.Replays chain) (htip : chain.tip = .ok tip) :
    WireSized tip.point := by
  rw [FixtureChain.tip] at htip
  rcases hlast : chain.entries.getLast? with _ | e <;> rw [hlast] at htip
  · obtain rfl := Except.ok.inj htip
    exact h.anchor
  · obtain ⟨hash, hhash⟩ := (h.decodes e (List.mem_of_getLast? hlast)).hash
    have hpoint := point_of_hash hhash
    dsimp only at htip
    rw [hpoint] at htip
    obtain rfl := Except.ok.inj htip
    exact wireSized_entry h (List.mem_of_getLast? hlast) hpoint

theorem wireSized_found (h : lib.Replays chain) {p : Point}
    (hjoined : Joined chain points (some p) offered) : WireSized p := by
  cases hjoined with
  | @found _ k hfirst =>
    have hhere := hfirst.here
    cases k with
    | zero =>
      have hanchor : chain.anchor = p := hhere
      rw [← hanchor]
      exact h.anchor
    | succ i =>
      obtain ⟨e, hget, hpoint⟩ := hhere
      exact wireSized_entry h (List.mem_of_getElem? hget) hpoint

/-! ## What the client hears and asks -/

/-- What the client makes of a served entry. -/
def headerEvent (lib : ChainSyncLibrary) (tip : Tip) (e : FixtureEntry) : ChainSyncEvent :=
  .rollForward (lib.header (contentOf e)) (toNcTip tip)

/-- The replies that serve some entries. -/
def headerReplies (tip : Tip) (entries : List FixtureEntry) : List (Wire ChainSyncMessage) :=
  entries.map fun e => .message (headerReply tip e)

theorem events_headers (hlib : lib.Reads) (hsize : WireSized tip.point)
    (entries : List FixtureEntry) (more : List (Wire ChainSyncMessage)) :
    lib.events (headerReplies tip entries ++ more) =
      (entries.map (headerEvent lib tip) ++ (lib.events more).1, (lib.events more).2) := by
  induction entries with
  | nil => rfl
  | cons e entries ih =>
    have hhead := hlib.header (contentOf e) tip hsize
    rw [headerReplies] at ih ⊢
    rw [List.map_cons, List.cons_append, ChainSyncLibrary.events, headerReply, hhead]
    dsimp only
    rw [ih]
    rfl

theorem intersect_isOk (hlib : lib.Reads) (h : lib.Replays chain)
    (hjoined : Joined chain points found offered) (hsize : WireSized tip.point) :
    ∃ answer, lib.intersect (.message (intersectReply tip found)) = .ok answer := by
  cases found with
  | none => exact ⟨_, hlib.notFound tip hsize⟩
  | some p => exact ⟨_, hlib.found p tip (wireSized_found h hjoined) hsize⟩

/-- **What the client has asked** once it has heard some headers, and no more than it wants. -/
theorem client_tells (silence : Silence) (asked : List Point) (count : UInt64)
    (entries : List FixtureEntry) (more : List (Wire ChainSyncMessage)) (hlib : lib.Reads)
    {answer : Option (NcPoint × NcTip)} (hsize : WireSized tip.point)
    (hanswer : lib.intersect (.message (intersectReply tip found)) = .ok answer)
    (hle : entries.length ≤ count.toNat) (hmore : (lib.events more).1 = []) :
    (clientParty lib silence asked count).tells
        (.message (intersectReply tip found) :: (headerReplies tip entries ++ more)) =
      .findIntersect (asked.map toNcPoint) :: (List.replicate entries.length .requestNext ++
        [if entries.length < count.toNat then .requestNext else .done]) := by
  show onWire some (heardBy lib silence asked count _).2.sent = _
  rw [heardBy_sent]
  dsimp only
  rw [hanswer]
  dsimp only
  rw [events_headers hlib hsize, hmore, List.append_nil, said_of_all, List.length_map]
  · intro event hevent
    obtain ⟨e, -, rfl⟩ := List.mem_map.mp hevent
    rfl
  · rw [List.length_map]
    exact hle

/-! ## What the server hears and answers -/

/-- **The session of the server**, once it has served so many headers. -/
theorem session_joined (awaitSecs : UInt64) (hdec : chain.Decodes) (htip : chain.tip = .ok tip)
    (hjoined : Joined chain points found offered) {i : Nat} (hi : i ≤ offered.length) :
    ∃ c s', Ahead chain c (offered.drop i) ∧
      Turned (intersectReply tip found :: (offered.take i).map (headerReply tip)) c
        (fun k => countHeaders i { k with
          intersectsHandled := k.intersectsHandled + 1, rulesApplied := k.rulesApplied + 1 })
        (started chain awaitSecs) s' ∧
      ∀ incoming, (serveLoop (generateFromFixture chain awaitSecs) (some chain) 0
          (.findIntersect points :: (List.replicate i .requestNext ++ incoming))).run
            (started chain awaitSecs) =
        (serveLoop (generateFromFixture chain awaitSecs) (some chain) (1 + i) incoming).run s' := by
  obtain ⟨c₁, hahead₁, hacts⟩ := acts_findIntersect hdec htip hjoined
  obtain ⟨s₁, ⟨hsent₁, hlocals₁⟩, hrun₁⟩ := serveLoop_turned
    (FixtureServing.generated_head chain awaitSecs) rfl rfl (by simp) hacts
    (started chain awaitSecs) rfl
  have hlength : (offered.take i).length = i := by rw [List.length_take]; omega
  obtain ⟨c, s', hahead, ⟨hsent, hlocals⟩, hrun⟩ := headers_turned awaitSecs hdec htip
    (offered.take i) (offered.drop i) 0 (by rw [List.take_append_drop]; exact hahead₁)
    (by rw [hlength]; have := joined_length_le hjoined; omega) s₁ (by rw [hlocals₁])
  rw [hlength] at hlocals hrun
  refine ⟨c, s', hahead, ⟨?_, ?_⟩, fun incoming => ?_⟩
  · rw [hsent, hsent₁, List.append_assoc]
    rfl
  · rw [hlocals, hlocals₁]
  · rw [hrun₁, hrun]

/-- What a session that serves a fixture has put on its channel. -/
theorem server_tells (awaitSecs : UInt64) {asked : List Point} (hdec : chain.Decodes)
    (htip : chain.tip = .ok tip)
    (hjoined : Joined chain ((asked.map toNcPoint).map fromNcPoint) found offered) {i : Nat}
    (hi : i ≤ offered.length) :
    (serverParty (generateFromFixture chain awaitSecs) (some chain)).tells
        (.findIntersect (asked.map toNcPoint) :: List.replicate i .requestNext) =
      .message (intersectReply tip found) :: headerReplies tip (offered.take i) := by
  obtain ⟨c, s', -, ⟨hsent, -⟩, hrun⟩ := session_joined awaitSecs hdec htip hjoined hi
  show (servedTo _ _ _).2.sent = _
  rw [servedTo, executeResponseScript_sent, List.map_cons, List.map_replicate]
  have hstop := hrun []
  rw [List.append_nil] at hstop
  have hloop : (serveLoop (generateFromFixture chain awaitSecs) (some chain) 0
      (ChainSyncRequest.received (.findIntersect (asked.map toNcPoint)) ::
        List.replicate i (ChainSyncRequest.received .requestNext))).run
          (started chain awaitSecs) = (.ok (), s') := hstop
  have hstarted : started chain awaitSecs = ((Session.emit (ChainSync.startedEvent
      (generateFromFixture chain awaitSecs) (some chain))).run
        (ChainSync.session (some chain))).2 := rfl
  rw [← hstarted, hloop, hsent, headerReplies, List.map_cons, List.map_map]
  rfl

/-! ## The whole conversation -/

/-- What has been delivered when there is nothing more to deliver. -/
def delivered (asked : List Point) (tip : Tip) (found : Option Point)
    (offered : List FixtureEntry) (count : UInt64) :
    State ChainSyncRequest (Wire ChainSyncMessage) where
  toRight := .findIntersect (asked.map toNcPoint) ::
    (List.replicate (offered.take count.toNat).length .requestNext ++
      [if offered.length < count.toNat then .requestNext else .done])
  toLeft := .message (intersectReply tip found) ::
    (headerReplies tip (offered.take count.toNat) ++
      if offered.length < count.toNat then [.message .awaitReply] else [])

theorem short_iff (count : UInt64) :
    (offered.take count.toNat).length < count.toNat ↔ offered.length < count.toNat := by
  rw [List.length_take]
  omega

theorem delivered_toLeft (asked : List Point) (count : UInt64) :
    (delivered asked tip found offered count).toLeft =
      (intersectReply tip found :: (offered.take count.toNat).map (headerReply tip)).map
        Wire.message ++ if offered.length < count.toNat then [.message .awaitReply] else [] := by
  rw [delivered, headerReplies, List.map_cons, List.map_map]
  rfl

/-- The server, once it has heard all there is to hear. -/
theorem server_delivered (awaitSecs : UInt64) {asked : List Point} (count : UInt64)
    (hdec : chain.Decodes) (htip : chain.tip = .ok tip)
    (hjoined : Joined chain ((asked.map toNcPoint).map fromNcPoint) found offered) :
    ∃ s', (serveLoop (generateFromFixture chain awaitSecs) (some chain) 0
          ((delivered asked tip found offered count).toRight.map ChainSyncRequest.received)).run
            (started chain awaitSecs) = (.ok (), s') ∧
      s'.sent = (delivered asked tip found offered count).toLeft ∧
      s'.locals.counters.headersServed = UInt64.ofNat (offered.take count.toNat).length ∧
      s'.locals.counters.awaitTriggered = decide (offered.length < count.toNat) := by
  have hle : (offered.take count.toNat).length ≤ offered.length := List.length_take_le' _ _
  obtain ⟨c, s, hahead, ⟨hsent, hlocals⟩, hrun⟩ :=
    session_joined awaitSecs hdec htip hjoined hle
  have hheard : (delivered asked tip found offered count).toRight.map ChainSyncRequest.received =
      .findIntersect ((asked.map toNcPoint).map fromNcPoint) ::
        (List.replicate (offered.take count.toNat).length .requestNext ++
          [if offered.length < count.toNat then .requestNext else .done]) := by
    rw [delivered]
    dsimp only
    rw [List.map_cons, List.map_append, List.map_replicate]
    split <;> rfl
  have htake : offered.take (offered.take count.toNat).length = offered.take count.toNat := by
    rw [List.length_take]
    exact (List.take_eq_take_min).symm
  rw [htake] at hsent
  rw [hheard, hrun]
  have hheaders : s.locals.counters.headersServed =
      UInt64.ofNat (offered.take count.toNat).length := by
    rw [hlocals]
    exact UInt64.zero_add _
  by_cases hshort : offered.length < count.toNat
  · -- one request more than there are entries
    have hall : offered.take count.toNat = offered := List.take_of_length_le (by omega)
    rw [hall, List.drop_length] at hahead
    rw [hall] at hheaders
    obtain ⟨c', s', ⟨hsent', hlocals'⟩, hrun'⟩ := await_turned awaitSecs htip offered.length hahead
      (joined_length_le hjoined) s (by rw [hlocals])
    refine ⟨s', ?_, ?_, ?_, ?_⟩
    · rw [if_pos hshort, hall, Nat.add_comm 1]
      exact hrun' []
    · rw [hsent', hsent, delivered_toLeft, if_pos hshort]
      rfl
    · rw [hlocals', hall]
      exact hheaders
    · rw [hlocals', decide_eq_true hshort]
  · refine ⟨((ChainSync.receive .done).run s).2, ?_, ?_, hheaders, ?_⟩
    · rw [if_neg hshort]
      rfl
    · show s.sent = _
      rw [hsent, delivered_toLeft, if_neg hshort, List.append_nil]
      rfl
    · show s.locals.counters.awaitTriggered = _
      rw [hlocals, decide_eq_false hshort]
      rfl

theorem delivered_quiet (silence : Silence) (awaitSecs : UInt64) {asked : List Point}
    (count : UInt64) (hlib : lib.Reads) (h : lib.Replays chain) (htip : chain.tip = .ok tip)
    (hjoined : Joined chain ((asked.map toNcPoint).map fromNcPoint) found offered) :
    Quiet (clientParty lib silence asked count)
      (serverParty (generateFromFixture chain awaitSecs) (some chain))
      (delivered asked tip found offered count) := by
  constructor
  · have hsize := wireSized_tip h htip
    obtain ⟨answer, hanswer⟩ := intersect_isOk hlib h hjoined hsize
    rw [delivered]
    dsimp only
    rw [client_tells silence asked count _ _ hlib hsize hanswer (List.length_take_le _ _)]
    · rw [if_congr (short_iff count) rfl rfl]
    · split
      · rw [ChainSyncLibrary.events, hlib.awaitReply]
        rfl
      · rfl
  · obtain ⟨s', hrun, hsent, -, -⟩ :=
      server_delivered awaitSecs count h.decodes htip hjoined
    show _ = (servedTo _ _ _).2.sent
    rw [servedTo, executeResponseScript_sent]
    have hloop := congrArg (fun r => r.2.sent) hrun
    exact hsent.symm.trans hloop.symm

/-- Whatever the client has asked so far, there is always more to come. -/
theorem client_drives {silence : Silence} {asked : List Point} (count : UInt64)
    (hlib : lib.Reads) (h : lib.Replays chain) (htip : chain.tip = .ok tip)
    (hjoined : Joined chain ((asked.map toNcPoint).map fromNcPoint) found offered)
    {heard : List ChainSyncRequest}
    (hbegins : heard <+: (delivered asked tip found offered count).toRight)
    (hne : heard ≠ (delivered asked tip found offered count).toRight) :
    heard.length < ((clientParty lib silence asked count).tells
      ((serverParty (generateFromFixture chain awaitSecs) (some chain)).tells heard)).length := by
  have hsize := wireSized_tip h htip
  obtain ⟨answer, hanswer⟩ := intersect_isOk hlib h hjoined hsize
  cases heard with
  | nil =>
    show 0 < (onWire some (heardBy lib silence asked count _).2.sent).length
    rw [heardBy_sent]
    exact Nat.succ_pos _
  | cons request heard =>
    -- the question, and fewer requests than the client will have made
    obtain ⟨rfl, hrest⟩ := List.cons_prefix_cons.mp hbegins
    have hlen : heard.length < (offered.take count.toNat).length + 1 := by
      have hle := hrest.length_le
      rw [List.length_append, List.length_replicate, List.length_singleton] at hle
      refine Nat.lt_of_le_of_ne hle fun heq => hne ?_
      rw [hrest.eq_of_length (by
        rw [heq, List.length_append, List.length_replicate, List.length_singleton])]
      rfl
    have hheard : heard = List.replicate heard.length .requestNext := by
      have htake := List.prefix_iff_eq_take.mp hrest
      rw [List.take_append_of_le_length (by rw [List.length_replicate]; omega),
        List.take_replicate, List.length_take] at htake
      rw [List.length_take] at hlen
      rwa [Nat.min_eq_left (by omega)] at htake
    have hoffered : heard.length ≤ offered.length := by
      rw [List.length_take] at hlen
      omega
    have hcount : heard.length ≤ count.toNat := by
      rw [List.length_take] at hlen
      omega
    have hserved := server_tells awaitSecs h.decodes htip hjoined hoffered
    rw [← hheard] at hserved
    have htold := client_tells silence asked count (offered.take heard.length) [] hlib hsize
      hanswer (by rw [List.length_take]; omega) rfl
    rw [List.append_nil] at htold
    rw [hserved, htold]
    simp only [List.length_cons, List.length_append, List.length_replicate, List.length_take,
      List.length_nil]
    omega

/-- What the client makes of all that is delivered. -/
theorem events_delivered (offered : List FixtureEntry) (count : UInt64) (hlib : lib.Reads)
    (hsize : WireSized tip.point) :
    lib.events (headerReplies tip (offered.take count.toNat) ++
        if offered.length < count.toNat then [.message .awaitReply] else []) =
      ((offered.take count.toNat).map (headerEvent lib tip), none) := by
  rw [events_headers hlib hsize]
  split
  · rw [ChainSyncLibrary.events, hlib.awaitReply, ChainSyncLibrary.events, List.append_nil]
  · rw [ChainSyncLibrary.events, List.append_nil]

theorem countP_headerEvents (entries : List FixtureEntry) :
    (entries.map (headerEvent lib tip)).countP ChainSyncEvent.isForward = entries.length := by
  rw [List.countP_map]
  exact List.countP_eq_length.mpr fun _ _ => rfl

/-- What the client has captured once it has heard some headers. -/
theorem captured_headers (silence : Silence) (asked : List Point) (count : UInt64)
    (entries : List FixtureEntry) (more : List (Wire ChainSyncMessage)) (hlib : lib.Reads)
    (h : lib.Replays chain) {answer : Option (NcPoint × NcTip)} (hsize : WireSized tip.point)
    (hanswer : lib.intersect (.message (intersectReply tip found)) = .ok answer)
    (hsubset : entries ⊆ chain.entries) (hle : entries.length ≤ count.toNat)
    (hmore : (lib.events more).1 = []) :
    List.Forall₂ CapturedAs entries (heardBy lib silence asked count
      (.message (intersectReply tip found) :: (headerReplies tip entries ++ more))
        ).2.locals.capturedHeaders := by
  rw [heardBy_captured]
  dsimp only
  rw [hanswer]
  dsimp only
  rw [events_headers hlib hsize, hmore, List.append_nil, responsesTaken, taken_of_all,
    List.take_of_length_le (by rw [List.length_map]; exact hle)]
  · clear hle hmore
    induction entries with
    | nil => exact .nil
    | cons e entries ih =>
      obtain ⟨he, hentries⟩ := List.cons_subset.mp hsubset
      obtain ⟨header, hcaptured, hof⟩ := h.truthful e he
      rw [List.map_cons, capturedFrom_cons]
      have hone : capturedFrom [headerEvent lib tip e] = [header] := by
        simp [capturedFrom, headerEvent, response, Lib.forwards, hcaptured]
      rw [hone]
      exact .cons hof (ih hentries)
  · intro event hevent
    obtain ⟨e, -, rfl⟩ := List.mem_map.mp hevent
    rfl

end

/-- What a client collects that is offered some entries, in a conversation that comes to `q`. -/
structure Collects (lib : ChainSyncLibrary) (silence : Silence) (asked : List Point)
    (count : UInt64) (rules : List ScriptRule) (chain : FixtureChain)
    (offered : List FixtureEntry) (q : State ChainSyncRequest (Wire ChainSyncMessage)) : Prop where
  /-- In the end it has the headers of the entries, in order, up to the number it wants. -/
  captured : List.Forall₂ CapturedAs (offered.take count.toNat)
    (heardBy lib silence asked count q.toLeft).2.locals.capturedHeaders
  /-- On the way it has the first of them. -/
  underway : ∀ x, Reachable (clientParty lib silence asked count)
      (serverParty rules (some chain)) x →
    (heardBy lib silence asked count x.toLeft).2.locals.capturedHeaders <+:
      (heardBy lib silence asked count q.toLeft).2.locals.capturedHeaders
  /-- If there are enough, both sessions complete, and say so. -/
  completes : count.toNat ≤ offered.length → ∃ summary served,
    (heardBy lib silence asked count q.toLeft).1 = .ok summary ∧
      summary.exitReason = "completed" ∧ summary.headersReceived = count ∧
      (servedTo rules (some chain) q.toRight).1 = .ok served ∧ served.headersServed = count ∧
      served.awaitTriggered = false
  /-- If not, the client has been told to wait, and reports what it has when it waits no more. -/
  waits : offered.length < count.toNat →
    q.toLeft.getLast? = some (.message .awaitReply) ∧
    (silence.next = .timeout → ∃ summary,
      (heardBy lib silence asked count q.toLeft).1 = .ok summary ∧
        summary.exitReason = "await_timeout" ∧
        summary.headersReceived = UInt64.ofNat offered.length)

theorem delivered_comesTo {lib : ChainSyncLibrary} {chain : FixtureChain} {asked : List Point}
    {tip : Tip} {found : Option Point} {offered : List FixtureEntry} (silence : Silence)
    (count : UInt64) (awaitSecs : UInt64) (hlib : lib.Reads) (h : lib.Replays chain)
    (htip : chain.tip = .ok tip)
    (hjoined : Joined chain ((asked.map toNcPoint).map fromNcPoint) found offered) :
    ComesTo (clientParty lib silence asked count)
      (serverParty (generateFromFixture chain awaitSecs) (some chain))
      (delivered asked tip found offered count) :=
  comesTo (delivered_quiet silence awaitSecs count hlib h htip hjoined)
    fun _ => client_drives count hlib h htip hjoined

theorem delivered_collects {lib : ChainSyncLibrary} {chain : FixtureChain} {asked : List Point}
    {tip : Tip} {found : Option Point} {offered : List FixtureEntry} (silence : Silence)
    (count : UInt64) (awaitSecs : UInt64) (hlib : lib.Reads) (h : lib.Replays chain)
    (htip : chain.tip = .ok tip)
    (hjoined : Joined chain ((asked.map toNcPoint).map fromNcPoint) found offered) :
    Collects lib silence asked count (generateFromFixture chain awaitSecs) chain offered
      (delivered asked tip found offered count) := by
  have hsize := wireSized_tip h htip
  obtain ⟨answer, hanswer⟩ := intersect_isOk hlib h hjoined hsize
  have hcomes := delivered_comesTo silence count awaitSecs hlib h htip hjoined
  have hevents := events_delivered offered count hlib hsize
  obtain ⟨hresult, -⟩ := heardBy_answered lib silence asked count
    (headerReplies tip (offered.take count.toNat) ++
      if offered.length < count.toNat then [.message .awaitReply] else []) hanswer
  have hshort_iff : RunsShort count ((offered.take count.toNat).map (headerEvent lib tip)) ↔
      offered.length < count.toNat := by
    rw [RunsShort, Short, countP_headerEvents]
    exact short_iff count
  refine ⟨?_, fun x hx => ?_, fun henough => ?_, fun hless => ⟨?_, fun htimeout => ?_⟩⟩
  · refine captured_headers silence asked count _ _ hlib h hsize hanswer
      (fun e he => joined_subset hjoined (List.take_subset _ _ he)) (List.length_take_le _ _) ?_
    split
    · rw [ChainSyncLibrary.events, hlib.awaitReply]
      rfl
    · rfl
  · exact heardBy_captured_mono lib silence asked count (hcomes.below x hx).toLeft
  · have hclosing := closing_enough count
      (lib.replies silence (.ok ()) (delivered asked tip found offered count).toLeft) (by
        show ¬ RunsShort count (lib.events _).1
        rw [hevents, hshort_iff]
        omega)
    obtain ⟨s', hrun, -, hserved, hawaited⟩ := server_delivered awaitSecs count h.decodes htip
      hjoined
    refine ⟨_, ⟨s'.locals.counters, "completed"⟩, hresult.trans hclosing.1, hclosing.2.1,
      hclosing.2.2, servedTo_completed _ _ hrun, ?_, ?_⟩
    · show s'.locals.counters.headersServed = count
      rw [hserved, List.length_take, Nat.min_eq_left henough, UInt64.ofNat_toNat]
    · show s'.locals.counters.awaitTriggered = false
      rw [hawaited, decide_eq_false (by omega)]
  · rw [delivered_toLeft, if_pos hless, List.getLast?_append]
    rfl
  · have hshort : RunsShort count (lib.replies silence (.ok ())
        (delivered asked tip found offered count).toLeft).incoming := by
      show RunsShort count (lib.events _).1
      rw [hevents, hshort_iff]
      exact hless
    have hending : (lib.replies silence (.ok ())
        (delivered asked tip found offered count).toLeft).ending = .timeout := by
      show (lib.events _).2.elim silence.next NoReply.error = .timeout
      rw [hevents]
      exact htimeout
    obtain ⟨hok, hreason⟩ := (closing_tooFew hshort).1 hending
    refine ⟨_, hresult.trans hok, hreason, ?_⟩
    rw [closing_headers]
    show UInt64.ofNat (min count.toNat ((lib.events _).1.countP ChainSyncEvent.isForward)) = _
    rw [hevents, countP_headerEvents, List.length_take, Nat.min_eq_right (by omega),
      Nat.min_eq_right (by omega)]

end Proof

end ConformanceHarness
