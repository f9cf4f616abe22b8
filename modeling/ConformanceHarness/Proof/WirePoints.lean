import ConformanceHarness.Proof.ClientParts
import ConformanceHarness.Proof.PointText

/-!
# Points on the wire

On the wire a hash has 32 bytes. A scenario's point may have a hash of any length, which
`to_nc_point` cuts off or fills up with zeros; the trace records the scenario's point. The two are
the same exactly for hashes of 32 bytes.
-/

namespace ConformanceHarness

/-- The origin, or a point whose hash has 32 bytes. -/
def WireSized : Point → Prop
  | .origin => True
  | .specific _ hash => hash.length = 32

/-- What is read from the payloads of the events of one kind. -/
def recorded {τ γ : Type} (kind : EventKind) (read : Value → γ) (trace : List (Stamped τ)) :
    List γ :=
  trace.filterMap fun e => if e.event.kind = kind then some (read e.event.payload) else none

/-- What is read from the messages on the channel. -/
def onWire {μ γ : Type} (read : μ → Option γ) (sent : List (Wire μ)) : List γ :=
  sent.filterMap fun
    | .message m => read m
    | .raw _ => none

/-! ## Chain-Sync -/

namespace ChainSyncClient

/-- The points in the payload of an event. -/
def pointsIn (payload : Value) : Option Value := payload.getField "points"

/-- The points that a message sends, as a trace writes them. -/
def pointsOf : ChainSyncRequest → Option (Option Value)
  | .findIntersect points => some (some (.array (points.map formatNcPoint)))
  | .requestNext | .done => none

/-- The points that `find_intersect` events record. -/
def recordedPoints (trace : List (Stamped Unit)) : List (Option Value) :=
  recorded .chainSyncFindIntersect pointsIn trace

/-- The points that are sent, as a trace writes them. -/
def sentPoints (sent : List (Wire ChainSyncRequest)) : List (Option Value) := onWire pointsOf sent

/-- **Every `find_intersect` event records the points that are sent.** -/
def RecordsPoints (s : Session Unit ChainSyncProgress ChainSyncRequest Unit) : Prop :=
  recordedPoints s.trace = sentPoints s.sent

end ChainSyncClient

/-! ## Block-Fetch -/

namespace BlockFetchClient

/-- The ends of a range, as a trace writes them. -/
abbrev RecordedRange := Option Value × Option Value

/-- The range in the payload of an event. -/
def rangeIn (payload : Value) : RecordedRange := (payload.getField "from", payload.getField "to")

/-- The range that a message asks for, as a trace writes it. -/
def rangeOf : BlockFetchClientMessage → Option RecordedRange
  | .requestRange fromPoint toPoint =>
    some (some (formatNcPoint fromPoint), some (formatNcPoint toPoint))
  | .clientDone => none

/-- The ranges that `request_range` events record. -/
def recordedRanges (trace : List (Stamped Unit)) : List RecordedRange :=
  recorded .blockFetchRequestRange rangeIn trace

/-- The ranges that are requested, as a trace writes them. -/
def sentRanges (sent : List (Wire BlockFetchClientMessage)) : List RecordedRange :=
  onWire rangeOf sent

/-- **Every `request_range` event records the range that is sent.** -/
def RecordsRanges (s : Session Unit BlockFetchProgress BlockFetchClientMessage Unit) : Prop :=
  recordedRanges s.trace = sentRanges s.sent

end BlockFetchClient

/-- The ends of the batches are as the wire has them. -/
def EndsWireSized (points : List Point) (batchSize : Nat) : Prop :=
  ∀ batch ∈ points.toChunks (max batchSize 1), ∀ p,
    batch.head? = some p ∨ batch.getLast? = some p → WireSized p

namespace Proof

/-! ## One point -/

theorem padTo32_eq_iff {hash : List UInt8} : (padTo32 hash).val = hash ↔ hash.length = 32 := by
  constructor
  · intro h
    rw [← h]
    exact (padTo32 hash).property
  · intro h
    show hash.take 32 ++ List.replicate (32 - hash.length) 0 = hash
    rw [h, List.take_of_length_le (Nat.le_of_eq h), Nat.sub_self, List.replicate_zero,
      List.append_nil]

/-- **A point comes back from the wire exactly if its hash fits.** -/
theorem fromNcPoint_toNcPoint_iff {p : Point} :
    fromNcPoint (toNcPoint p) = p ↔ WireSized p := by
  cases p with
  | origin => exact ⟨fun _ => trivial, fun _ => rfl⟩
  | specific slot hash =>
    rw [toNcPoint, fromNcPoint, WireSized, ← padTo32_eq_iff]
    constructor
    · intro h
      exact (Point.specific.inj h).2
    · intro h
      rw [h]

/-- Points that fit are told apart on the wire. -/
theorem toNcPoint_inj {p q : Point} (hp : WireSized p) (hq : WireSized q)
    (h : toNcPoint p = toNcPoint q) : p = q := by
  rw [← fromNcPoint_toNcPoint_iff.mpr hp, h, fromNcPoint_toNcPoint_iff.mpr hq]

theorem encodeHex_inj {a b : List UInt8} (h : encodeHex a = encodeHex b) : a = b := by
  have hdecoded : ∀ bytes, Scenario.decodeHex (encodeHex bytes) = .ok bytes := fun bytes =>
    decodeHexWith_encodeHex ..
  have hsame := hdecoded a
  rw [h, hdecoded b] at hsame
  exact (Except.ok.inj hsame).symm

theorem formatPoint_inj {p q : Point} (h : formatPoint p = formatPoint q) : p = q := by
  cases p with
  | origin =>
    cases q with
    | origin => rfl
    | specific slot hash => cases h
  | specific slot hash =>
    cases q with
    | origin => cases h
    | specific slot' hash' =>
      injection h with hfields
      injection hfields with hhash hrest
      injection hrest with hslot
      injection hhash with _ hhash
      injection hslot with _ hslot
      injection hhash with hhash
      injection hslot with hslot
      injection hslot with hslot
      rw [hslot, encodeHex_inj hhash]

/-- **What a trace records is what is sent exactly if the hash fits.** -/
theorem formatNcPoint_toNcPoint_iff {p : Point} :
    formatPoint p = formatNcPoint (toNcPoint p) ↔ WireSized p := by
  rw [← fromNcPoint_toNcPoint_iff, formatNcPoint]
  exact ⟨fun h => (formatPoint_inj h).symm, fun h => by rw [h]⟩

theorem toNcPoint_fromNcPoint (point : NcPoint) : toNcPoint (fromNcPoint point) = point := by
  cases point with
  | origin => rfl
  | specific slot hash =>
    rw [fromNcPoint, toNcPoint, Subtype.ext (padTo32_eq_iff.mpr hash.property)]

/-- A point that does not fit is taken for another. -/
theorem exists_toNcPoint_eq {p : Point} (h : ¬ WireSized p) :
    ∃ q, WireSized q ∧ q ≠ p ∧ toNcPoint q = toNcPoint p := by
  refine ⟨fromNcPoint (toNcPoint p), ?_, fun heq => h (fromNcPoint_toNcPoint_iff.mp heq),
    toNcPoint_fromNcPoint (toNcPoint p)⟩
  rw [← fromNcPoint_toNcPoint_iff, toNcPoint_fromNcPoint]

/-! ## What a session adds -/

section

variable {τ ρ μ κ γ α : Type} {kind : EventKind} {readEvent : Value → γ} {readMessage : μ → Option γ}

/-- What a part of a session adds to what is recorded, and to what is sent. -/
def Adds (kind : EventKind) (readEvent : Value → γ) (readMessage : μ → Option γ)
    (events messages : List γ) (s s' : Session τ ρ μ κ) : Prop :=
  recorded kind readEvent s'.trace = recorded kind readEvent s.trace ++ events ∧
    onWire readMessage s'.sent = onWire readMessage s.sent ++ messages

theorem adds_trans {events events' messages messages' : List γ} {a b c : Session τ ρ μ κ}
    (h : Adds kind readEvent readMessage events messages a b)
    (h' : Adds kind readEvent readMessage events' messages' b c) :
    Adds kind readEvent readMessage (events ++ events') (messages ++ messages') a c := by
  obtain ⟨hevents, hmessages⟩ := h
  obtain ⟨hevents', hmessages'⟩ := h'
  rw [Adds, hevents', hmessages', hevents, hmessages, List.append_assoc, List.append_assoc]
  exact ⟨rfl, rfl⟩

/-- What comes before and after does not count if it adds nothing. -/
theorem adds_between {events messages : List γ} {a b c d : Session τ ρ μ κ}
    (hbefore : Adds kind readEvent readMessage [] [] a b)
    (h : Adds kind readEvent readMessage events messages b c)
    (hafter : Adds kind readEvent readMessage [] [] c d) :
    Adds kind readEvent readMessage events messages a d := by
  have hadds := adds_trans (adds_trans hbefore h) hafter
  rw [List.nil_append, List.append_nil, List.nil_append, List.append_nil] at hadds
  exact hadds

theorem recorded_emit {trace : List (Stamped τ)} {event : TraceEvent} {before after : τ} :
    recorded kind readEvent (trace ++ [⟨event, before, after⟩]) =
      recorded kind readEvent trace ++
        if event.kind = kind then [readEvent event.payload] else [] := by
  rw [recorded, recorded, List.filterMap_append]
  split <;> rename_i hkind <;> simp [hkind]

theorem onWire_message {sent : List (Wire μ)} {m : μ} :
    onWire readMessage (sent ++ [.message m]) =
      onWire readMessage sent ++ (readMessage m).toList := by
  rw [onWire, onWire, List.filterMap_append]
  cases hread : readMessage m <;> simp [hread]

/-- All that is sent is on the wire. -/
theorem onWire_messages (messages : List μ) :
    onWire some (messages.map Wire.message) = messages := by
  induction messages with
  | nil => rfl
  | cons m messages ih => exact congrArg (m :: ·) ih

/-- Other events and messages add nothing. -/
theorem adds_client {isAsking : μ → Bool}
    (hother : ∀ m, isAsking m = false → readMessage m = none) :
    KeepsClient kind isAsking
      (Adds kind readEvent readMessage [] [] : Session τ ρ μ κ → Session τ ρ μ κ → Prop) where
  refl := fun s => ⟨(List.append_nil _).symm, (List.append_nil _).symm⟩
  trans := fun _ _ _ hab hbc => adds_trans hab hbc
  update := fun s => ⟨(List.append_nil _).symm, (List.append_nil _).symm⟩
  message := by
    intro m hm s
    refine ⟨(List.append_nil _).symm, ?_⟩
    show onWire readMessage (s.sent ++ [.message m]) = _
    rw [onWire_message, hother m hm]
    rfl
  event := by
    intro event _ hkind s
    refine ⟨?_, (List.append_nil _).symm⟩
    show recorded kind readEvent (s.trace ++ [⟨event, _, _⟩]) = _
    rw [recorded_emit, if_neg (by simpa using hkind)]

end

/-! ## Chain-Sync -/

section

open ChainSyncClient

theorem askIntersection_adds (points : List Point)
    (s : Session Unit ChainSyncProgress ChainSyncRequest Unit) :
    Adds .chainSyncFindIntersect pointsIn pointsOf [some (.array (points.map formatPoint))]
      [some (.array ((points.map toNcPoint).map formatNcPoint))] s
      ((askIntersection points).run s).2 := by
  constructor
  · exact recorded_emit
  · exact onWire_message

/-- **A Chain-Sync session records its points exactly if they fit.** -/
theorem runChainSync_records_iff {points : List Point} {count : UInt64}
    {replies : ChainSyncReplies} :
    RecordsPoints ((runChainSync points count replies).run session).2 ↔
      ∀ p ∈ points, WireSized p := by
  have hother : ∀ m : ChainSyncRequest, m.isFindIntersect = false → pointsOf m = none := by
    intro m hm
    cases m with
    | findIntersect points => cases hm
    | requestNext => rfl
    | done => rfl
  obtain ⟨s, hstarted, hended⟩ := runChainSync_asks (adds_client hother) points count replies
  obtain ⟨hrecorded, hsent⟩ :=
    adds_trans (adds_trans hstarted (askIntersection_adds points s)) hended
  have hiff : RecordsPoints ((runChainSync points count replies).run session).2 ↔
      points.map formatPoint = (points.map toNcPoint).map formatNcPoint := by
    rw [RecordsPoints, recordedPoints, sentPoints, hrecorded, hsent]
    constructor
    · intro h
      injection h with h
      injection h with h
      injection h
    · intro h
      rw [h]
      rfl
  rw [hiff, List.map_map, List.map_inj_left]
  exact forall₂_congr fun p _ => formatNcPoint_toNcPoint_iff

end

/-! ## Block-Fetch -/

section

open BlockFetchClient

/-- Nothing but a request records or sends a range. -/
theorem adds_blockFetch : KeepsBlockFetch (Adds .blockFetchRequestRange rangeIn rangeOf [] []) :=
  adds_client fun m hm => by
    cases m with
    | requestRange fromPoint toPoint => cases hm
    | clientDone => rfl

theorem requestRange_adds {batch : List Point} {fromPoint toPoint : Point} (reply : RangeReply)
    (s : Session Unit BlockFetchProgress BlockFetchClientMessage Unit) :
    Adds .blockFetchRequestRange rangeIn rangeOf
      [(some (formatPoint fromPoint), some (formatPoint toPoint))]
      [(some (formatNcPoint (toNcPoint fromPoint)), some (formatNcPoint (toNcPoint toPoint)))] s
      ((requestRange batch fromPoint toPoint reply).run s).2 := by
  have hasked : Adds .blockFetchRequestRange rangeIn rangeOf
      [(some (formatPoint fromPoint), some (formatPoint toPoint))]
      [(some (formatNcPoint (toNcPoint fromPoint)), some (formatNcPoint (toNcPoint toPoint)))] s
      ((askRange batch.length fromPoint toPoint).run s).2 := ⟨recorded_emit, onWire_message⟩
  exact adds_trans hasked (requestRange_asked adds_blockFetch reply s)

/-- What the request of a batch records. -/
def recordedBatch (batch : List Point) : RecordedRange :=
  (batch.head?.map formatPoint, batch.getLast?.map formatPoint)

/-- What it sends. -/
def sentBatch (batch : List Point) : RecordedRange :=
  (batch.head?.map fun p => formatNcPoint (toNcPoint p),
    batch.getLast?.map fun p => formatNcPoint (toNcPoint p))

theorem map_eq_map_iff {p : Option Point} :
    p.map formatPoint = (p.map fun q => formatNcPoint (toNcPoint q)) ↔
      ∀ q, p = some q → WireSized q := by
  cases p with
  | none => exact ⟨fun _ q hq => absurd hq.symm (Option.some_ne_none q), fun _ => rfl⟩
  | some p =>
    rw [Option.map_some, Option.map_some, Option.some.injEq, formatNcPoint_toNcPoint_iff]
    constructor
    · intro h q hq
      rw [← Option.some.inj hq]
      exact h
    · exact fun h => h p rfl

theorem recordedBatch_eq_iff {batch : List Point} :
    recordedBatch batch = sentBatch batch ↔
      ∀ p, batch.head? = some p ∨ batch.getLast? = some p → WireSized p := by
  rw [recordedBatch, sentBatch, Prod.mk.injEq, map_eq_map_iff, map_eq_map_iff]
  constructor
  · rintro ⟨hhead, hlast⟩ p (hp | hp)
    · exact hhead p hp
    · exact hlast p hp
  · intro h
    exact ⟨fun p hp => h p (.inl hp), fun p hp => h p (.inr hp)⟩

theorem requestRange_adds_batch {batch : List Point} {fromPoint toPoint : Point}
    (hhead : batch.head? = some fromPoint) (hlast : batch.getLast? = some toPoint)
    (reply : RangeReply) (s : Session Unit BlockFetchProgress BlockFetchClientMessage Unit) :
    Adds .blockFetchRequestRange rangeIn rangeOf [recordedBatch batch] [sentBatch batch] s
      ((requestRange batch fromPoint toPoint reply).run s).2 := by
  rw [recordedBatch, sentBatch, hhead, hlast]
  exact requestRange_adds reply s

/-- The batches are requested in turn, up to some point. -/
theorem fetchBatches_adds {range : Nat → RangeReply} {batches : List (List Point)} {i : Nat}
    (s : Session Unit BlockFetchProgress BlockFetchClientMessage Unit) :
    ∃ firsts, firsts <+: batches ∧ Adds .blockFetchRequestRange rangeIn rangeOf
      (firsts.map recordedBatch) (firsts.map sentBatch) s
      ((fetchBatches range i batches).run s).2 := by
  induction batches generalizing i s with
  | nil => exact ⟨[], List.prefix_rfl, adds_blockFetch.refl s⟩
  | cons batch rest ih =>
    have hstopped : ∃ firsts, firsts <+: batch :: rest ∧ Adds .blockFetchRequestRange rangeIn
        rangeOf (firsts.map recordedBatch) (firsts.map sentBatch) s s :=
      ⟨[], List.nil_prefix, adds_blockFetch.refl s⟩
    rw [fetchBatches]
    rcases hhead : batch.head? with _ | fromPoint
    · exact hstopped
    rcases hlast : batch.getLast? with _ | toPoint
    · exact hstopped
    have hbatch := requestRange_adds_batch hhead hlast (range i) s
    rcases hrun : (requestRange batch fromPoint toPoint (range i)).run s with ⟨e | a, s'⟩ <;>
      rw [hrun] at hbatch
    · refine ⟨[batch], (List.prefix_cons_inj batch).mpr List.nil_prefix, ?_⟩
      have hend := Lib.Prog.run_bind_error (f := fun _ => fetchBatches range (i + 1) rest) hrun
      exact hend ▸ hbatch
    · obtain ⟨firsts, hstart, hadds⟩ := ih s' (i := i + 1)
      refine ⟨batch :: firsts, (List.prefix_cons_inj batch).mpr hstart, ?_⟩
      have hend := Lib.Prog.run_bind_ok (f := fun _ => fetchBatches range (i + 1) rest) hrun
      exact hend ▸ adds_trans hbatch hadds

/-- If the peer has no blocks at all, they are all requested. -/
theorem fetchBatches_noBlocks {batches : List (List Point)} (hne : ∀ batch ∈ batches, batch ≠ [])
    (i : Nat) (s : Session Unit BlockFetchProgress BlockFetchClientMessage Unit) :
    Adds .blockFetchRequestRange rangeIn rangeOf (batches.map recordedBatch)
      (batches.map sentBatch) s ((fetchBatches (fun _ => .noBlocks) i batches).run s).2 := by
  induction batches generalizing i s with
  | nil => exact adds_blockFetch.refl s
  | cons batch rest ih =>
    obtain ⟨hbatch, hrest⟩ := List.forall_mem_cons.mp hne
    obtain ⟨point, points, rfl⟩ := List.exists_cons_of_ne_nil hbatch
    rw [fetchBatches, List.head?_cons, List.getLast?_cons]
    exact adds_trans (requestRange_adds_batch List.head?_cons List.getLast?_cons .noBlocks s)
      (ih hrest (i + 1) _)

/-- A session that has requested some batches. -/
theorem recordsRanges_iff {batches : List (List Point)}
    {s : Session Unit BlockFetchProgress BlockFetchClientMessage Unit}
    (h : Adds .blockFetchRequestRange rangeIn rangeOf (batches.map recordedBatch)
      (batches.map sentBatch) session s) :
    RecordsRanges s ↔ ∀ batch ∈ batches, ∀ p,
      batch.head? = some p ∨ batch.getLast? = some p → WireSized p := by
  obtain ⟨hrecorded, hsent⟩ := h
  rw [RecordsRanges, recordedRanges, sentRanges, hrecorded, hsent]
  show batches.map recordedBatch = batches.map sentBatch ↔ _
  rw [List.map_inj_left]
  exact forall₂_congr fun batch _ => recordedBatch_eq_iff

/-- **Block-Fetch sessions record their ranges exactly if the ends of the batches fit.** -/
theorem runBlockFetch_records_iff {points : List Point} {batchSize : Nat} :
    (∀ replies, RecordsRanges ((runBlockFetch points batchSize replies).run session).2) ↔
      EndsWireSized points batchSize := by
  constructor
  · intro h
    obtain ⟨s, hstarted, hended⟩ :=
      runBlockFetch_asks adds_blockFetch points batchSize ⟨fun _ => .noBlocks, .ok ()⟩
    have hall := fetchBatches_noBlocks
      (@Lib.toChunks_ne_nil Point (max batchSize 1) points) 0 s
    exact (recordsRanges_iff (adds_between hstarted hall hended)).mp (h _)
  · intro h replies
    obtain ⟨s, hstarted, hended⟩ := runBlockFetch_asks adds_blockFetch points batchSize replies
    obtain ⟨firsts, hstart, hfirsts⟩ :=
      @fetchBatches_adds replies.range (points.toChunks (max batchSize 1)) 0 s
    exact (recordsRanges_iff (adds_between hstarted hfirsts hended)).mpr
      fun batch hbatch => h batch (hstart.subset hbatch)

end

/-- **The point on the wire is the point in the scenario exactly if** its hash has 32 bytes. Such
points are told apart on the wire, any other is taken for one of them, and what a session records
is what it sends exactly if all its points are such. -/
theorem wire_points_iff (p : Point) :
    (∀ text, parsePoint text = .ok p → (fromNcPoint (toNcPoint p) = p ↔ WireSized p)) ∧
      (∀ q, WireSized p → WireSized q → toNcPoint p = toNcPoint q → p = q) ∧
      (¬ WireSized p → ∃ q, WireSized q ∧ q ≠ p ∧ toNcPoint q = toNcPoint p) ∧
      (∀ points count replies,
        ChainSyncClient.RecordsPoints
            ((ChainSyncClient.runChainSync points count replies).run ChainSyncClient.session).2 ↔
          ∀ p ∈ points, WireSized p) ∧
      ∀ points batchSize,
        (∀ replies, BlockFetchClient.RecordsRanges
          ((BlockFetchClient.runBlockFetch points batchSize replies).run
            BlockFetchClient.session).2) ↔ EndsWireSized points batchSize := by
  refine ⟨fun _ _ => fromNcPoint_toNcPoint_iff, fun q => toNcPoint_inj,
    exists_toNcPoint_eq, ?_, ?_⟩
  · exact fun points count replies => runChainSync_records_iff
  · exact fun points batchSize => runBlockFetch_records_iff

/-- A point that is accepted, with a hash of two bytes, and another that is the same on the
wire. -/
theorem short_hash_changed :
    parsePoint "5:abcd" = .ok (.specific 5 [0xab, 0xcd]) ∧
      parsePoint "5:abcd00" = .ok (.specific 5 [0xab, 0xcd, 0]) ∧
      fromNcPoint (toNcPoint (.specific 5 [0xab, 0xcd])) ≠ .specific 5 [0xab, 0xcd] ∧
      toNcPoint (.specific 5 [0xab, 0xcd]) = toNcPoint (.specific 5 [0xab, 0xcd, 0]) := by
  refine ⟨by decide, by decide, ?_, by decide⟩
  rw [ne_eq, fromNcPoint_toNcPoint_iff, WireSized]
  decide

end Proof

end ConformanceHarness
