import ConformanceHarness.Lib.Following
import ConformanceHarness.Runner.Capture

/-!
# Captured fixtures

`run_chain_sync` collects the header of every `RollForward`, and the runner writes them after an
anchor at the origin. The file is the chain the client has followed exactly if the session
started at the origin, went back behind no header, and is the first of its run to be captured.
-/

namespace ConformanceHarness.Proof

open ChainSyncClient
open ConformanceHarness.Lib (Response forwards follow Harmless)

/-! ## The responses of a session -/

/-- What is captured of a header, if the library has parsed it. -/
def capturedOf (header : WrappedHeader) : Option CapturedHeader :=
  match header.parsed, header.point with
  | some info, some (.specific slot hash) =>
    some ⟨slot, hash.val, info.blockNumber, header.raw, info.era⟩
  | _, _ => none

/-- What a response tells the client. -/
def response : ChainSyncEvent → Response WrappedHeader (Option NcPoint)
  | .rollForward header _ => .forward header
  | .rollBackward point _ => .backward (some point)

/-- The headers of some responses that are captured. -/
def capturedFrom (events : List ChainSyncEvent) : List CapturedHeader :=
  (forwards (events.map response)).filterMap capturedOf

theorem capturedFrom_cons (event : ChainSyncEvent) (events : List ChainSyncEvent) :
    capturedFrom (event :: events) = capturedFrom [event] ++ capturedFrom events := by
  unfold capturedFrom
  rw [List.map_cons, ← List.filterMap_append, ← Lib.forwards_append]
  rfl

/-- `headers_received` after a response. -/
def receivedAfter (received : UInt64) : ChainSyncEvent → UInt64
  | .rollForward _ _ => received + 1
  | .rollBackward _ _ => received

/-- The responses to the requests of a session that has received `received` headers. -/
def processed (count : UInt64) : UInt64 → List ChainSyncEvent → List ChainSyncEvent
  | _, [] => []
  | received, event :: incoming =>
    if received < count then event :: processed count (receivedAfter received event) incoming
    else []

theorem extractAndCapture_spec (header : WrappedHeader) (l : ChainSyncProgress) :
    (extractAndCapture header l).capturedHeaders =
        l.capturedHeaders ++ (capturedOf header).toList ∧
      (extractAndCapture header l).headersReceived = l.headersReceived := by
  unfold extractAndCapture capturedOf
  cases header.parsed with
  | none => simp
  | some info =>
    cases header.point with
    | none => simp
    | some point => cases point <;> simp

section

variable {count : UInt64} {s s' : Session Unit ChainSyncProgress ChainSyncRequest Unit}

/-- Asking captures nothing. -/
theorem requestNext_run : ∃ s₁, requestNext.run s = (.ok (), s₁) ∧
    s₁.locals.capturedHeaders = s.locals.capturedHeaders ∧
    s₁.locals.headersReceived = s.locals.headersReceived := ⟨_, rfl, rfl, rfl⟩

/-- A response is captured if it brings a header. -/
theorem receive_run (event : ChainSyncEvent) : ∃ s₁, (receive event).run s = (.ok (), s₁) ∧
    s₁.locals.capturedHeaders =
      s.locals.capturedHeaders ++ capturedFrom [event] ∧
    s₁.locals.headersReceived = receivedAfter s.locals.headersReceived event := by
  cases event with
  | rollBackward point tip => exact ⟨_, rfl, (List.append_nil _).symm, rfl⟩
  | rollForward header tip =>
    obtain ⟨hcaptured, hreceived⟩ := extractAndCapture_spec header
      { s.locals with
        messagesReceived := s.locals.messagesReceived + 1
        headersReceived := s.locals.headersReceived + 1 }
    refine ⟨_, rfl, hcaptured.trans ?_, hreceived⟩
    cases hheader : capturedOf header <;> simp [capturedFrom, response, hheader, forwards]

/-- The end of a session sums up what it has captured. -/
theorem finish_run (exitReason : String) : ∃ summary s₁,
    (ChainSyncClient.finish exitReason).run s = (.ok summary, s₁) ∧
      summary.capturedHeaders = s.locals.capturedHeaders ∧ s₁.locals = s.locals :=
  ⟨_, _, rfl, rfl, rfl⟩

/-- The loop has captured the headers of the responses it has processed. -/
theorem requestLoop_captured {ending : NoReply} {incoming : List ChainSyncEvent}
    {result : Option ChainSyncSummary}
    (h : (requestLoop count ending incoming).run s = (.ok result, s')) :
    s'.locals.capturedHeaders = s.locals.capturedHeaders ++
        capturedFrom (processed count s.locals.headersReceived incoming) ∧
      ∀ summary, result = some summary →
        summary.capturedHeaders = s'.locals.capturedHeaders := by
  induction incoming generalizing s with
  | nil =>
    rw [requestLoop, Lib.Prog.run_get_bind] at h
    rw [processed, show capturedFrom [] = [] from rfl, List.append_nil]
    split at h
    · obtain ⟨s₁, hrequest, hcaptured, -⟩ := requestNext_run (s := s)
      rw [Lib.Prog.run_bind_ok hrequest] at h
      cases ending with
      | timeout =>
        obtain ⟨summary, s₂, hfinish, hsummary, hlocals⟩ := finish_run (s := s₁) "await_timeout"
        rw [noReply, Lib.Prog.run_bind_ok hfinish] at h
        obtain ⟨hresult, rfl⟩ := Prod.mk.inj h
        cases hresult
        rw [hlocals]
        exact ⟨hcaptured, fun _ hsome => Option.some.inj hsome ▸ hsummary⟩
      | error message => exact nomatch h
    · obtain ⟨hresult, rfl⟩ := Prod.mk.inj h
      cases hresult
      exact ⟨rfl, nofun⟩
  | cons event incoming ih =>
    rw [requestLoop, Lib.Prog.run_get_bind] at h
    rw [processed]
    split at h
    · next hless =>
      obtain ⟨s₁, hrequest, hcaptured₁, hreceived₁⟩ := requestNext_run (s := s)
      obtain ⟨s₂, hreceive, hcaptured₂, hreceived₂⟩ := receive_run (s := s₁) event
      rw [Lib.Prog.run_bind_ok hrequest, Lib.Prog.run_bind_ok hreceive] at h
      obtain ⟨hcaptured, hsummary⟩ := ih h
      refine ⟨?_, hsummary⟩
      rw [hreceived₂, hreceived₁] at hcaptured
      rw [if_pos hless, capturedFrom_cons, hcaptured, hcaptured₂, hcaptured₁, List.append_assoc]
    · next hless =>
      obtain ⟨hresult, rfl⟩ := Prod.mk.inj h
      cases hresult
      rw [if_neg hless]
      exact ⟨(List.append_nil _).symm, nofun⟩

end

/-- **A session has captured the headers of the responses it has processed.** -/
theorem runChainSync_captured {points : List Point} {count : UInt64} {replies : ChainSyncReplies}
    {found : NcPoint × NcTip} {summary : ChainSyncSummary}
    {s : Session Unit ChainSyncProgress ChainSyncRequest Unit}
    (hfound : replies.intersect = .ok (some found))
    (h : (runChainSync points count replies).run session = (.ok summary, s)) :
    summary.capturedHeaders = capturedFrom (processed count 0 replies.incoming) := by
  obtain ⟨s₁, hintersect, hcaptured₁, hreceived₁⟩ : ∃ s₁,
      (findIntersection points replies.intersect).run
        { session with trace := session.trace ++ [⟨startedEvent count, (), ()⟩] } =
          (.ok (), s₁) ∧ s₁.locals.capturedHeaders = [] ∧ s₁.locals.headersReceived = 0 := by
    rw [hfound]
    exact ⟨_, rfl, rfl, rfl⟩
  have hstarted : (Session.emit (startedEvent count)).run session = (.ok (),
      { session with trace := session.trace ++ [⟨startedEvent count, (), ()⟩] }) := rfl
  rw [runChainSync, Lib.Prog.run_bind_ok hstarted, Lib.Prog.run_bind_ok hintersect] at h
  rcases hloop : (requestLoop count replies.ending replies.incoming).run s₁ with ⟨result, s₂⟩
  cases result with
  | error fault =>
    rw [Lib.Prog.run_bind_error hloop] at h
    exact nomatch h
  | ok result =>
    obtain ⟨hcaptured, hsummary⟩ := requestLoop_captured hloop
    rw [hcaptured₁, hreceived₁, List.nil_append] at hcaptured
    rw [Lib.Prog.run_bind_ok hloop] at h
    cases result with
    | some ended =>
      obtain ⟨hresult, -⟩ := Prod.mk.inj h
      cases hresult
      exact (hsummary summary rfl).trans hcaptured
    | none =>
      -- `MsgDone` captures nothing, sent or not
      obtain ⟨s₃, hdone, hcaptured₃⟩ : ∃ s₃, (sendDone replies.done).run s₂ = (.ok (), s₃) ∧
          s₃.locals.capturedHeaders = s₂.locals.capturedHeaders := by
        cases replies.done <;> exact ⟨_, rfl, rfl⟩
      obtain ⟨ended, s₄, hfinish, hended, -⟩ := finish_run (s := s₃) "completed"
      dsimp only at h
      rw [Lib.Prog.run_bind_ok hdone, hfinish] at h
      obtain ⟨hresult, -⟩ := Prod.mk.inj h
      cases hresult
      rw [hended, hcaptured₃, hcaptured]

/-- The entries of the chain that the client has after some responses. -/
def chainEntries (told : List (Response WrappedHeader (Option NcPoint))) : List FixtureEntry :=
  ((follow WrappedHeader.point [] told).filterMap capturedOf).map CapturedHeader.entry

/-! ## The file -/

section

variable {serde : FixtureSerde}

theorem asU8_toUInt64 (n : UInt8) : (Value.ofU64 n.toUInt64).asU8 = some n := by
  have hle : n.toUInt64 ≤ 255 := by
    rw [UInt64.le_iff_toNat_le]
    have hlt := n.toNat_lt
    have hn : n.toUInt64.toNat = n.toNat := UInt8.toNat_toUInt64 n
    have hmax : (255 : UInt64).toNat = 255 := rfl
    omega
  rw [Value.asU8, Value.ofU64, Value.asU64]
  dsimp only
  rw [if_pos hle, UInt8.toUInt8_toUInt64]

/-- An entry is read back from its fields. -/
theorem entryFromValue_toValue (e : FixtureEntry) :
    Fixture.entryFromValue e.toValue = some e := by
  have hslot : (Value.ofU64 e.slot).asU64 = some e.slot := rfl
  have hnumber : (Value.ofU64 e.blockNumber).asU64 = some e.blockNumber := rfl
  have hvariant := asU8_toUInt64 e.variant
  simp [Fixture.entryFromValue, FixtureEntry.toValue, Value.asStruct, List.lookup_cons, List.lookup_nil, Value.required,
    Value.defaulted, Value.asString, hslot, hnumber, hvariant]

theorem appendEntries (headers : List CapturedHeader) (lines : List String) :
    headers.foldl (fun lines h => some (appendEntry serde h.entry lines)) (some lines) =
      some (lines ++ headers.map fun h => serde.entryToString h.entry) := by
  induction headers generalizing lines with
  | nil => simp
  | cons h headers ih =>
    rw [List.foldl_cons, appendEntry, Option.getD_some, ih, List.append_assoc]
    rfl

theorem capture_anchored (headers : List CapturedHeader) (lines : List String) :
    CaptureFile.capture serde ⟨some lines, true⟩ headers =
      ⟨some (lines ++ headers.map fun h => serde.entryToString h.entry), true⟩ := by
  unfold CaptureFile.capture
  cases headers with
  | nil => simp
  | cons h headers =>
    rw [if_neg (by simp), if_pos rfl]
    dsimp only
    rw [appendEntries]

/-- The first headers that are captured replace what was in the file. -/
theorem capture_fresh {file : CaptureFile} (hfresh : file.anchorWritten = false)
    {headers : List CapturedHeader} (hne : headers ≠ []) : CaptureFile.capture serde file headers =
      CaptureFile.capture serde ⟨some (writeAnchor .origin), true⟩ headers := by
  unfold CaptureFile.capture
  rw [List.isEmpty_eq_false_iff.mpr hne, hfresh]
  rfl

/-- Once there is an anchor, every session adds its headers. -/
theorem captures_anchored (sessions : List (List CapturedHeader)) (lines : List String) :
    sessions.foldl (CaptureFile.capture serde) ⟨some lines, true⟩ =
      ⟨some (lines ++ sessions.flatten.map fun h => serde.entryToString h.entry), true⟩ := by
  induction sessions generalizing lines with
  | nil => simp
  | cons headers sessions ih =>
    rw [List.foldl_cons, capture_anchored, ih, List.flatten_cons, List.map_append,
      List.append_assoc]

/-- **The file of a run**: an anchor at the origin, and the headers of all its sessions. -/
theorem captures_fresh {file : CaptureFile} (hfresh : file.anchorWritten = false)
    {sessions : List (List CapturedHeader)} (hne : sessions.flatten ≠ []) :
    sessions.foldl (CaptureFile.capture serde) file =
      ⟨some (anchorLine .origin ::
        sessions.flatten.map fun h => serde.entryToString h.entry), true⟩ := by
  induction sessions with
  | nil => exact absurd rfl hne
  | cons headers sessions ih =>
    rw [List.foldl_cons]
    by_cases hheaders : headers = []
    · subst hheaders
      exact ih hne
    · rw [capture_fresh hfresh hheaders, capture_anchored, captures_anchored, List.flatten_cons,
        List.map_append, List.append_assoc]
      rfl

/-- The line of an entry is not blank, and is read back as it was written. -/
def ReadsBack (serde : FixtureSerde) (e : FixtureEntry) : Prop :=
  (serde.entryToString e).toList.all Fixture.isWhiteSpace = false ∧
    serde.fromStr (serde.entryToString e) = some e.toValue

theorem loadEntries_written {n : Nat} {entries : List FixtureEntry}
    (hread : ∀ e ∈ entries, ReadsBack serde e) :
    Fixture.loadEntries serde.fromStr n (entries.map serde.entryToString) = .ok entries := by
  induction entries generalizing n with
  | nil => rfl
  | cons e entries ih =>
    obtain ⟨hblank, hline⟩ := hread e List.mem_cons_self
    have hrest := ih (n := n + 1) fun e' hmem => hread e' (List.mem_cons_of_mem e hmem)
    rw [List.map_cons, Fixture.loadEntries, hblank, hline, if_neg Bool.false_ne_true,
      Option.bind_some, entryFromValue_toValue]
    dsimp only
    rw [hrest]

/-- A file of an anchor and entries loads to them. -/
theorem load_anchored {path : String} {anchor : Point} {v : Value} {entries : List FixtureEntry}
    (hanchor : serde.fromStr (anchorLine anchor) = some v)
    (hparse : Fixture.parseAnchor v = .ok anchor) (hread : ∀ e ∈ entries, ReadsBack serde e) :
    Fixture.load serde.fromStr path (some (anchorLine anchor :: entries.map serde.entryToString)) =
      .ok ⟨anchor, entries⟩ := by
  rw [Fixture.load, hanchor]
  dsimp only
  rw [hparse, withContext_ok]
  dsimp only
  rw [loadEntries_written hread]

/-- The file loads to an anchor at the origin and the headers written. -/
theorem load_written {path : String} {headers : List CapturedHeader}
    (hanchor : serde.fromStr (anchorLine .origin) = some (.object [("anchor", .bool true)]))
    (hread : ∀ h ∈ headers, ReadsBack serde h.entry) :
    Fixture.load serde.fromStr path (some (anchorLine .origin ::
        headers.map fun h => serde.entryToString h.entry)) =
      .ok ⟨.origin, headers.map CapturedHeader.entry⟩ := by
  have hentries : ∀ e ∈ headers.map CapturedHeader.entry, ReadsBack serde e := by
    intro e hmem
    obtain ⟨h, hh, rfl⟩ := List.mem_map.mp hmem
    exact hread h hh
  have hloaded : Fixture.load serde.fromStr path (some (anchorLine .origin ::
      (headers.map CapturedHeader.entry).map serde.entryToString)) =
        .ok ⟨.origin, headers.map CapturedHeader.entry⟩ := load_anchored hanchor rfl hentries
  rw [List.map_map] at hloaded
  exact hloaded

theorem fromNcPoint_eq_origin (point : NcPoint) :
    fromNcPoint point = .origin ↔ point = .origin := by
  cases point with
  | origin => exact ⟨fun _ => rfl, fun _ => rfl⟩
  | specific slot hash => exact ⟨nofun, nofun⟩

/-- **A captured fixture is the chain of its session** exactly if the session started at the
origin, went back behind no captured header, and is the first of its run to capture one. -/
theorem capture_faithful_iff (path : String) (file : CaptureFile)
    (earlier : List (List CapturedHeader)) {points : List Point} {count : UInt64}
    {replies : ChainSyncReplies} {found : NcPoint × NcTip} {summary : ChainSyncSummary}
    {s : Session Unit ChainSyncProgress ChainSyncRequest Unit}
    (hanchor : serde.fromStr (anchorLine .origin) = some (.object [("anchor", .bool true)]))
    (hread : ∀ headers ∈ earlier ++ [summary.capturedHeaders], ∀ h ∈ headers,
      ReadsBack serde h.entry)
    (hfresh : file.anchorWritten = false)
    (hfound : replies.intersect = .ok (some found))
    (hrun : (runChainSync points count replies).run session = (.ok summary, s))
    (hwritten : capturedFrom (processed count 0 replies.incoming) ≠ []) :
    Fixture.load serde.fromStr path ((earlier ++ [summary.capturedHeaders]).foldl
        (CaptureFile.capture serde) file).lines =
      .ok ⟨fromNcPoint found.1, chainEntries ((processed count 0 replies.incoming).map response)⟩ ↔
    found.1 = .origin ∧ (∀ headers ∈ earlier, headers = []) ∧
      Harmless WrappedHeader.point capturedOf []
        ((processed count 0 replies.incoming).map response) := by
  have hcaptured := runChainSync_captured hfound hrun
  have hall : (earlier ++ [summary.capturedHeaders]).flatten =
      earlier.flatten ++ summary.capturedHeaders := by
    rw [List.flatten_append, List.flatten_singleton]
  have hne : (earlier ++ [summary.capturedHeaders]).flatten ≠ [] := by
    rw [hall, hcaptured]
    exact List.append_ne_nil_of_right_ne_nil _ hwritten
  have hreadAll : ∀ h ∈ (earlier ++ [summary.capturedHeaders]).flatten,
      ReadsBack serde h.entry := by
    intro h hmem
    obtain ⟨headers, hheaders, hmem⟩ := List.mem_flatten.mp hmem
    exact hread headers hheaders h hmem
  rw [captures_fresh hfresh hne, load_written hanchor hreadAll, hall, hcaptured]
  constructor
  · intro h
    obtain ⟨hpoint, hentries⟩ := FixtureChain.mk.inj (Except.ok.inj h)
    -- the file has as many entries as the chain, which has no more than this session captured
    have hlength := congrArg List.length hentries
    have hbound := Lib.follow_length_le WrappedHeader.point capturedOf []
      ((processed count 0 replies.incoming).map response)
    unfold chainEntries at hlength
    unfold capturedFrom at hlength
    simp only [List.length_map, List.length_append, List.filterMap_nil, List.length_nil]
      at hlength hbound
    refine ⟨(fromNcPoint_eq_origin found.1).mp hpoint.symm, ?_, Lib.harmless_of_length ?_⟩
    · have hearlier : earlier.flatten.length = 0 := by omega
      exact List.flatten_eq_nil_iff.mp (List.eq_nil_of_length_eq_zero hearlier)
    · rw [List.filterMap_nil, List.length_nil]
      omega
  · intro h
    obtain ⟨hpoint, hearlier, hharmless⟩ := h
    have hchain := Lib.follow_of_harmless hharmless
    rw [List.filterMap_nil, List.nil_append] at hchain
    rw [hpoint, chainEntries, hchain, List.flatten_eq_nil_iff.mpr hearlier]
    rfl

end

/-! ## Two sessions -/

/-- A header at a slot, whose hash and body repeat one byte. -/
def plainHeader (slot : UInt64) (byte : UInt8) : WrappedHeader where
  raw := [0x82, byte]
  parsed := some ⟨slot, 6⟩
  point := some (.specific slot ⟨List.replicate 32 byte, List.length_replicate⟩)

/-- What is captured of it. -/
def plainEntry (slot : UInt64) (byte : UInt8) : FixtureEntry where
  slot := slot
  blockHash := encodeHex (List.replicate 32 byte)
  blockNumber := slot
  cborHex := encodeHex [0x82, byte]
  variant := 6

/-- An entry as JSON text. -/
def entryText (e : FixtureEntry) : String :=
  "\x7b\"slot\":" ++ s!"{e.slot}" ++ ",\"block_hash\":\"" ++ e.blockHash ++
    "\",\"block_number\":" ++ s!"{e.blockNumber}" ++ ",\"cbor_hex\":\"" ++ e.cborHex ++
    "\",\"variant\":" ++ s!"{e.variant}" ++ "\x7d"

/-- `serde_json` on the text of the anchor and of some entries. -/
def textSerde (entries : List FixtureEntry) : FixtureSerde where
  fromStr line :=
    if line = anchorLine .origin then some (.object [("anchor", .bool true)])
    else (entries.find? fun e => entryText e = line).map FixtureEntry.toValue
  entryToString := entryText

theorem entryText_not_blank (e : FixtureEntry) :
    (entryText e).toList.all Fixture.isWhiteSpace = false := by
  have hfirst : "\x7b\"slot\":".toList.all Fixture.isWhiteSpace = false := by decide
  unfold entryText
  simp only [String.toList_append, List.all_append]
  rw [hfirst]
  rfl

/-- The third character tells them apart. -/
theorem entryText_ne_anchor (e : FixtureEntry) : entryText e ≠ anchorLine .origin := by
  intro h
  have hstart := congrArg (fun text => text.toList.take 3) h
  unfold entryText anchorLine at hstart
  simp [String.toList_append] at hstart

theorem textSerde_anchor (entries : List FixtureEntry) :
    (textSerde entries).fromStr (anchorLine .origin) =
      some (.object [("anchor", .bool true)]) := by
  unfold textSerde
  dsimp only
  rw [if_pos rfl]

theorem textSerde_readsBack {entries : List FixtureEntry} {e : FixtureEntry} (hmem : e ∈ entries)
    (honly : ∀ e' ∈ entries, entryText e' = entryText e → e' = e) :
    ReadsBack (textSerde entries) e := by
  refine ⟨entryText_not_blank e, ?_⟩
  unfold textSerde
  dsimp only
  rw [if_neg (entryText_ne_anchor e)]
  rcases hfind : entries.find? fun e' => entryText e' = entryText e with _ | e'
  · have hnone := List.find?_eq_none.mp hfind e hmem
    exact absurd (decide_eq_true rfl) hnone
  · have hsame := List.find?_some hfind
    rw [honly e' (List.mem_of_find?_eq_some hfind) (of_decide_eq_true hsame)]
    rfl

/-- A session from slot 5 in which the peer switches from one block at slot 7 to another. -/
def forkReplies : ChainSyncReplies where
  intersect := .ok (some (.specific 5 ⟨List.replicate 32 5, List.length_replicate⟩, ⟨.origin, 0⟩))
  incoming := [.rollForward (plainHeader 6 6) ⟨.origin, 0⟩,
    .rollForward (plainHeader 7 7) ⟨.origin, 0⟩,
    .rollBackward (.specific 6 ⟨List.replicate 32 6, List.length_replicate⟩) ⟨.origin, 0⟩,
    .rollForward (plainHeader 7 8) ⟨.origin, 0⟩]
  ending := .timeout
  done := .ok ()

/-- The entries of all its headers. -/
def forkEntries : List FixtureEntry := [plainEntry 6 6, plainEntry 7 7, plainEntry 7 8]

/-- The file has both blocks, after an anchor at the origin. -/
theorem captured_fork : ∃ summary s,
    (runChainSync [.specific 5 (List.replicate 32 5)] 3 forkReplies).run session =
        (.ok summary, s) ∧
      Fixture.load (textSerde forkEntries).fromStr "fixture.jsonl"
          (CaptureFile.capture (textSerde forkEntries) ⟨none, false⟩
            summary.capturedHeaders).lines = .ok ⟨.origin, forkEntries⟩ ∧
      chainEntries ((processed 3 0 forkReplies.incoming).map response) =
        [plainEntry 6 6, plainEntry 7 8] ∧
      FixtureChain.mk .origin forkEntries ≠
        ⟨.specific 5 (List.replicate 32 5), [plainEntry 6 6, plainEntry 7 8]⟩ := by
  obtain ⟨summary, s, hrun⟩ : ∃ summary s,
    (runChainSync [.specific 5 (List.replicate 32 5)] 3 forkReplies).run session =
      (.ok summary, s) := ⟨_, _, rfl⟩
  have hcaptured : summary.capturedHeaders = capturedFrom forkReplies.incoming :=
    runChainSync_captured rfl hrun
  have hentries : summary.capturedHeaders.map CapturedHeader.entry = forkEntries := by
    rw [hcaptured]
    rfl
  have hread : ∀ h ∈ summary.capturedHeaders, ReadsBack (textSerde forkEntries) h.entry := by
    have honly : ∀ e ∈ forkEntries, ∀ e' ∈ forkEntries, entryText e' = entryText e → e' = e := by
      decide +kernel
    intro h hmem
    have hentry := hentries ▸ List.mem_map_of_mem hmem
    exact textSerde_readsBack hentry (honly h.entry hentry)
  refine ⟨summary, s, hrun, ?_, by decide, by decide⟩
  have hne : summary.capturedHeaders ≠ [] := by
    rw [hcaptured]
    exact nofun
  rw [capture_fresh rfl hne, capture_anchored]
  exact (load_written (textSerde_anchor forkEntries) hread).trans (by rw [hentries])

/-- A session from the origin, as peers answer it. -/
def growthReplies : ChainSyncReplies where
  intersect := .ok (some (.origin, ⟨.origin, 0⟩))
  incoming := [.rollBackward .origin ⟨.origin, 0⟩, .rollForward (plainHeader 6 6) ⟨.origin, 0⟩]
  ending := .timeout
  done := .ok ()

/-- Its file is its chain, whatever was in the file. -/
theorem captured_growth : ∃ summary s,
    (runChainSync [.origin] 1 growthReplies).run session = (.ok summary, s) ∧
      Fixture.load (textSerde [plainEntry 6 6]).fromStr "fixture.jsonl"
          (CaptureFile.capture (textSerde [plainEntry 6 6]) ⟨some ["stale"], false⟩
            summary.capturedHeaders).lines =
        .ok ⟨.origin, chainEntries ((processed 1 0 growthReplies.incoming).map response)⟩ := by
  obtain ⟨summary, s, hrun⟩ : ∃ summary s,
    (runChainSync [.origin] 1 growthReplies).run session = (.ok summary, s) := ⟨_, _, rfl⟩
  have hcaptured : summary.capturedHeaders =
    capturedFrom [.rollForward (plainHeader 6 6) ⟨.origin, 0⟩] := runChainSync_captured rfl hrun
  have hread : ReadsBack (textSerde [plainEntry 6 6]) (plainEntry 6 6) :=
    textSerde_readsBack List.mem_cons_self fun e' hmem _ => List.mem_singleton.mp hmem
  refine ⟨summary, s, hrun, (capture_faithful_iff "fixture.jsonl" ⟨some ["stale"], false⟩ []
    (textSerde_anchor _) ?_ rfl rfl hrun ?_).mpr ⟨rfl, nofun, ?_⟩⟩
  · intro headers hheaders h hmem
    rw [List.mem_singleton.mp hheaders, hcaptured] at hmem
    obtain rfl := List.mem_singleton.mp hmem
    exact hread
  · decide
  · exact ⟨nofun, trivial⟩

end ConformanceHarness.Proof
