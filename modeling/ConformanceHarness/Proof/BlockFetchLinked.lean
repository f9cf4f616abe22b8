import ConformanceHarness.Proof.BlockFetchParties
import ConformanceHarness.Proof.StreamedRanges

/-!
# A Block-Fetch client and a server that talk to each other

`run_block_fetch` on one end of a connection, a server that streams the range of each request on
the other, and channels that deliver when they like. Whatever is delivered first, each batch of
points is answered with its range, or with `NoBlocks` if there is none, as long as the server has
rules.
-/

namespace ConformanceHarness

open ConformanceHarness.Lib (Prog)
open ConformanceHarness.Lib.Duplex
open BlockFetchClient

/-- What the harness relies on. -/
structure BlockFetchLibrary.Reads (lib : BlockFetchLibrary) : Prop where
  startBatch : lib.answer (.message .startBatch) = .ok true
  noBlocks : lib.answer (.message .noBlocks) = .ok false
  block : ∀ body, lib.block (.message (.block body)) = .ok (some body)
  batchDone : lib.block (.message .batchDone) = .ok none

/-- The messages of a complete reply. -/
def RangeReply.messages : RangeReply → List BlockFetchMessage
  | .noBlocks => [.noBlocks]
  | .batch bodies _ => .startBatch :: (bodies.map .block ++ [.batchDone])
  | .error _ => []

/-- What a request is to be answered with. -/
inductive RangeAnswer (chain : BlockFixtureChain) (fromPoint toPoint : Point) : RangeReply → Prop
  | noBlocks (h : chain.Unsatisfiable fromPoint toPoint) :
      RangeAnswer chain fromPoint toPoint .noBlocks
  | blocks {i j : Nat} {bodies : List (List UInt8)} (hfrom : chain.FirstBlock fromPoint i)
      (hto : chain.FirstBlock toPoint j) (hle : i ≤ j)
      (hbodies : List.Forall₂ BlockFixtureEntry.HasBody (chain.blocksBetween i j) bodies) :
      RangeAnswer chain fromPoint toPoint (.batch bodies none)

/-- A rule that streams the range of a request. -/
def streamRule : ScriptRule := ⟨.requestRange, .streamBatch .fromRequest, false⟩

/-- A script that does so for so many requests. -/
def streamScript (n : Nat) : List ScriptRule := List.replicate n streamRule

/-- The point that the server reads. -/
def wirePoint (p : Point) : Point := fromNcPoint (toNcPoint p)

/-- A reply to the request for a batch. -/
def AnswersBatch (chain : BlockFixtureChain) (batch : List Point) (reply : RangeReply) : Prop :=
  RangeAnswer chain (wirePoint (batch.headD .origin)) (wirePoint (batch.getLastD .origin)) reply

/-- The blocks of some points that are captured, where each is requested by itself. -/
inductive BlocksAt (chain : BlockFixtureChain) : List Point → List CapturedBlock → Prop
  | nil : BlocksAt chain [] []
  | noBlock {p : Point} {rest : List Point} {blocks : List CapturedBlock}
      (h : ¬ chain.HasBlock (wirePoint p)) (hrest : BlocksAt chain rest blocks) :
      BlocksAt chain (p :: rest) blocks
  | block {slot : UInt64} {hash body : List UInt8} {k : Nat} {e : BlockFixtureEntry}
      {rest : List Point} {blocks : List CapturedBlock}
      (h : chain.FirstBlock (wirePoint (.specific slot hash)) k) (hget : chain.entries[k]? = some e)
      (hbody : e.HasBody body) (hrest : BlocksAt chain rest blocks) :
      BlocksAt chain (.specific slot hash :: rest) (⟨slot, hash, body⟩ :: blocks)

namespace BlockFetch

/-- What a session has counted besides, once some requests are answered. -/
def countReplies (answered : BlockFetchCounts) (rules : Nat) (k : BlockFetchCounters) :
    BlockFetchCounters where
  rangeRequests := k.rangeRequests + answered.rangeRequests
  blocksServed := k.blocksServed + answered.blocksReceived
  noBlocksResponses := k.noBlocksResponses + answered.noBlocksResponses
  rulesApplied := k.rulesApplied + UInt64.ofNat rules

end BlockFetch

namespace Proof

open BlockFetch
open Session

section

variable {chain : BlockFixtureChain} {fromPoint toPoint : Point} {reply : RangeReply}

theorem rangeAnswer_completes (h : RangeAnswer chain fromPoint toPoint reply) :
    reply.completes = true := by
  cases h <;> rfl

/-- A range holds its first block. -/
theorem blocksBetween_ne_nil {i j : Nat} (hto : chain.FirstBlock toPoint j) (hle : i ≤ j) :
    chain.blocksBetween i j ≠ [] := by
  intro hnil
  have hlen := congrArg List.length hnil
  have := hto.lt_length
  rw [BlockFixtureChain.blocksBetween, List.length_drop, List.length_take, List.length_nil]
    at hlen
  omega

/-! ## What the server answers -/

theorem sendBlocks_locals (entries : List (BlockSource × List UInt8)) (s : BlockFetchSession) :
    ((sendBlocks entries).run s).2.locals =
      { s.locals with
        blocksServed := s.locals.blocksServed + UInt64.ofNat entries.length } := by
  induction entries generalizing s with
  | nil =>
    show s.locals = { s.locals with blocksServed := s.locals.blocksServed + 0 }
    rw [UInt64.add_zero]
  | cons entry rest ih =>
    refine (ih ((sendBlock entry.1 entry.2 entry.2.length).run s).2).trans ?_
    rw [List.length_cons, UInt64.ofNat_add, UInt64.add_comm (UInt64.ofNat rest.length),
      ← UInt64.add_assoc]
    rfl

theorem sendStream_locals (stateBefore : ServerBfState) {entries : List (BlockSource × List UInt8)}
    (hne : entries ≠ []) (s : BlockFetchSession) :
    ((sendStream stateBefore (some entries)).run s).2.locals =
      { s.locals with
        blocksServed := s.locals.blocksServed + UInt64.ofNat entries.length } := by
  let started := ((sendStartBatch stateBefore).run s).2
  have hstart : (sendStartBatch stateBefore).run s = (.ok (), started) := rfl
  obtain ⟨t, hblocks, -⟩ := sendBlocks_run entries started
  have hlocals := sendBlocks_locals entries started
  rw [hblocks] at hlocals
  rw [sendStream, Prog.run_bind_ok hstart, Prog.run_bind_ok hblocks]
  · exact hlocals
  · exact hne

/-- A request that is answered so, whatever the session has done. -/
structure Streams (chain : BlockFixtureChain) (fromPoint toPoint : Point) (reply : RangeReply) :
    Prop where
  answer : RangeAnswer chain fromPoint toPoint reply
  acts : ∀ stateBefore s, ∃ s',
    (executeSingleSend (.streamBatch .fromRequest) (.requestRange fromPoint toPoint)
      (some chain) stateBefore).run s = (.ok false, s') ∧
    s'.sent = s.sent ++ reply.messages.map Wire.message ∧
    s'.locals = { s.locals with
      blocksServed := s.locals.blocksServed + (replyCounts reply).blocksReceived
      noBlocksResponses := s.locals.noBlocksResponses + (replyCounts reply).noBlocksResponses }

/-- **The range of a request is streamed.** -/
theorem exists_streams (h : chain.RangeLegible fromPoint toPoint) :
    ∃ reply, Streams chain fromPoint toPoint reply := by
  rcases findRange_legible h.first h.last with ⟨hno, hfind⟩ | ⟨i, j, hi, hj, hle, hfind⟩
  · refine ⟨.noBlocks, .noBlocks hno, fun stateBefore s => ?_⟩
    have hstream : streamEntries (.requestRange fromPoint toPoint) (some chain) .fromRequest =
        .ok none := by rw [streamEntries, hfind]
    refine ⟨_, executeSingleSend_stream hstream rfl rfl, rfl, ?_⟩
    show _ = { s.locals with
      blocksServed := s.locals.blocksServed + 0
      noBlocksResponses := s.locals.noBlocksResponses + 1 }
    rw [UInt64.add_zero]
  · obtain ⟨bodies, hall⟩ := Lib.exists_forall₂ (h.bodies i j hi hj hle)
    obtain ⟨decoded, hmap, rfl⟩ := mapEntries_bodies hall
    have hstream : streamEntries (.requestRange fromPoint toPoint) (some chain) .fromRequest =
        .ok (some decoded) := by
      rw [streamEntries, hfind]
      dsimp only
      rw [hmap]
      rfl
    have hne : decoded ≠ [] := by
      rintro rfl
      exact blocksBetween_ne_nil hj hle (List.forall₂_nil_right_iff.mp hall)
    refine ⟨.batch (decoded.map Prod.snd) none, .blocks hi hj hle hall, fun stateBefore s => ?_⟩
    let noted := ((noteSend (.streamBatch .fromRequest) : BlockFetchServer Unit).run s).2
    obtain ⟨s', hrun, hsent, -, -, -⟩ := sendStream_run stateBefore hne noted
    have hlocals := sendStream_locals stateBefore hne noted
    rw [hrun] at hlocals
    refine ⟨s', executeSingleSend_stream hstream rfl hrun, hsent.trans ?_, hlocals.trans ?_⟩
    · rw [RangeReply.messages, List.map_cons, List.map_append, List.map_map, List.map_map]
      rfl
    · show _ = { s.locals with
        blocksServed := s.locals.blocksServed +
          (0 + UInt64.ofNat (decoded.map Prod.snd).length)
        noBlocksResponses := s.locals.noBlocksResponses + (0 + 0) }
      rw [UInt64.zero_add, UInt64.zero_add, UInt64.add_zero, List.length_map]
      rfl

/-! ## The session of the server -/

variable {n i : Nat}

theorem countReplies_zero (k : BlockFetchCounters) : countReplies 0 0 k = k := by
  show BlockFetchCounters.mk (_ + 0) (_ + 0) (_ + 0) (_ + 0) = k
  rw [UInt64.add_zero, UInt64.add_zero, UInt64.add_zero, UInt64.add_zero]

theorem countReplies_add (c d : BlockFetchCounts) (m n : Nat) (k : BlockFetchCounters) :
    countReplies d n (countReplies c m k) = countReplies (c + d) (m + n) k := by
  show BlockFetchCounters.mk _ _ _ _ = BlockFetchCounters.mk _ _ _ _
  rw [UInt64.ofNat_add, ← UInt64.add_assoc]
  exact congrArg₂ (fun f (l : UInt64) => f l) (congrArg₂ (fun f (l : UInt64) => f l)
    (congrArg₂ BlockFetchCounters.mk (UInt64.add_assoc ..) (UInt64.add_assoc ..))
    (UInt64.add_assoc ..)) rfl

theorem nextRule_streamScript (hlt : i < n) :
    nextRule (BlockFetchRequest.requestRange fromPoint toPoint).matchesOn i
      ((streamScript n).drop i) = some (i, streamRule) := by
  obtain ⟨m, hm⟩ : ∃ m, n - i = m + 1 := ⟨n - i - 1, by omega⟩
  rw [streamScript, List.drop_replicate, hm, List.replicate_succ, nextRule]
  exact if_pos rfl

/-- **One request.** -/
theorem streamScript_turn (hlt : i < n) (h : Streams chain fromPoint toPoint reply)
    (s : BlockFetchSession) :
    ∃ s', s'.sent = s.sent ++ reply.messages.map Wire.message ∧
      s'.locals = countReplies (replyCounts reply) 1 s.locals ∧
      ∀ incoming, (serveLoop (streamScript n) (some chain) i
          (.requestRange fromPoint toPoint :: incoming)).run s =
        (serveLoop (streamScript n) (some chain) (i + 1) incoming).run s' := by
  obtain ⟨s', hrun, hsent, hlocals⟩ := h.acts
    (fetchTurnTo (.requestRange fromPoint toPoint) i streamRule s).state
    (fetchTurnTo (.requestRange fromPoint toPoint) i streamRule s)
  refine ⟨s', hsent, hlocals.trans ?_, fun incoming => ?_⟩
  · have hone : (replyCounts reply).rangeRequests = 1 := by cases h.answer <;> rfl
    show _ = BlockFetchCounters.mk _ _ _ _
    rw [hone]
    rfl
  · have hsend : (executeSend streamRule.send (.requestRange fromPoint toPoint) (some chain)
        (fetchTurnTo (.requestRange fromPoint toPoint) i streamRule s).state).run
          (fetchTurnTo (.requestRange fromPoint toPoint) i streamRule s) = (.ok false, s') := hrun
    rw [fetchLoop_turn (by simp) (nextRule_streamScript hlt), hsend]
    rfl

/-- **Many requests**, each for a batch. -/
theorem streamScript_turns {batches : List (List Point)} {replies : List RangeReply}
    (h : List.Forall₂ (fun batch reply => Streams chain (wirePoint (batch.headD .origin))
      (wirePoint (batch.getLastD .origin)) reply) batches replies)
    (hle : i + batches.length ≤ n) (s : BlockFetchSession) :
    ∃ s', s'.sent = s.sent ++ (replies.flatMap RangeReply.messages).map Wire.message ∧
      s'.locals = countReplies (replies.map replyCounts).sum replies.length s.locals ∧
      ∀ incoming, (serveLoop (streamScript n) (some chain) i
          ((batches.map askFor).map BlockFetchClientMessage.received ++ incoming)).run s =
        (serveLoop (streamScript n) (some chain) (i + batches.length) incoming).run s' := by
  induction h generalizing i s with
  | nil => exact ⟨s, (List.append_nil _).symm, (countReplies_zero _).symm, fun _ => rfl⟩
  | @cons batch reply batches replies hstreams hrest ih =>
    rw [List.length_cons] at hle
    obtain ⟨s₁, hsent₁, hlocals₁, hrun₁⟩ :=
      streamScript_turn (n := n) (i := i) (by omega) hstreams s
    obtain ⟨s', hsent, hlocals, hrun⟩ := ih (i := i + 1) (by omega) s₁
    refine ⟨s', ?_, ?_, fun incoming => ?_⟩
    · rw [hsent, hsent₁, List.flatMap_cons, List.map_append, List.append_assoc]
    · rw [hlocals, hlocals₁, countReplies_add, List.map_cons, List.sum_cons, List.length_cons,
        Nat.add_comm 1]
    · rw [List.length_cons, Nat.add_comm batches.length 1, ← Nat.add_assoc, ← hrun]
      exact hrun₁ _

/-- The client is done. -/
theorem streamScript_done (chain : BlockFixtureChain) (n i : Nat) (s : BlockFetchSession) : ∃ s',
    (serveLoop (streamScript n) (some chain) i [.clientDone]).run s = (.ok (), s') ∧
      s'.sent = s.sent ∧ s'.locals = s.locals := ⟨_, rfl, rfl, rfl⟩

/-- The error of a script that has no rule for a request. -/
def exhausted (n : Nat) : Fault :=
  .err [s!"serve_block_fetch: no matching rule for \"request_range\" (exhausted {n} rules)"]

/-- There is no rule for another request. -/
theorem streamScript_exhausted (chain : BlockFixtureChain) (n : Nat) (fromPoint toPoint : Point)
    (s : BlockFetchSession) : ∃ s',
    (serveLoop (streamScript n) (some chain) n [.requestRange fromPoint toPoint]).run s =
        (.error (exhausted n), s') ∧ s'.sent = s.sent := by
  have hnext : nextRule (BlockFetchRequest.requestRange fromPoint toPoint).matchesOn n
      ((streamScript n).drop n) = none := by
    rw [streamScript, List.drop_replicate, Nat.sub_self]
    rfl
  refine ⟨rangeCounted (.requestRange fromPoint toPoint) s, ?_, rfl⟩
  rw [serveLoop, if_neg (by simp), hnext]
  show (Except.error (Fault.err [_]), _) = _
  rw [streamScript, List.length_replicate]
  rfl

end

/-! ## The whole conversation -/

section

variable {lib : BlockFetchLibrary} {silence : String} {replies : List RangeReply}

theorem rangeReplies_blocks (hlib : lib.Reads) (bodies more : List (List UInt8))
    (rest : List (Wire BlockFetchMessage)) :
    lib.rangeReplies silence (some bodies) ((more.map BlockFetchMessage.block ++
        [BlockFetchMessage.batchDone]).map Wire.message ++ rest) =
      .batch (bodies ++ more) none :: lib.rangeReplies silence none rest := by
  induction more generalizing bodies with
  | nil =>
    rw [List.map_nil, List.nil_append, List.map_singleton, List.singleton_append,
      BlockFetchLibrary.rangeReplies, hlib.batchDone, List.append_nil]
  | cons body more ih =>
    rw [List.map_cons, List.cons_append, List.map_cons, List.cons_append,
      BlockFetchLibrary.rangeReplies, hlib.block]
    dsimp only
    rw [ih, List.append_assoc]
    rfl

/-- What the server answers is what the client hears. -/
theorem rangeReplies_messages (silence : String) (hlib : lib.Reads)
    (hcomplete : ∀ r ∈ replies, r.completes = true) :
    lib.rangeReplies silence none ((replies.flatMap RangeReply.messages).map Wire.message) =
      replies := by
  induction replies with
  | nil => rfl
  | cons reply replies ih =>
    obtain ⟨hreply, hreplies⟩ := List.forall_mem_cons.mp hcomplete
    rw [List.flatMap_cons, List.map_append]
    cases reply with
    | noBlocks =>
      rw [RangeReply.messages, List.map_singleton, List.singleton_append,
        BlockFetchLibrary.rangeReplies, hlib.noBlocks]
      exact congrArg (RangeReply.noBlocks :: ·) (ih hreplies)
    | batch bodies failed =>
      obtain rfl : failed = none := Option.isNone_iff_eq_none.mp hreply
      rw [RangeReply.messages, List.map_cons, List.cons_append, BlockFetchLibrary.rangeReplies,
        hlib.startBatch]
      dsimp only
      rw [rangeReplies_blocks hlib, ih hreplies]
      rfl
    | error message => exact absurd hreply Bool.false_ne_true

theorem answeredBefore_complete (hcomplete : ∀ r ∈ replies, r.completes = true) :
    answeredBefore replies = replies.length := by
  rw [answeredBefore, List.takeWhile_eq_self_iff.mpr hcomplete]

/-! ### The agenda -/

variable {batches : List (List Point)} {n k : Nat}

theorem agenda_length : (agenda batches).length = batches.length + 1 := by
  rw [agenda, List.length_append, List.length_map, List.length_singleton]

theorem agenda_take (hle : k ≤ batches.length) :
    (agenda batches).take k = (batches.take k).map askFor := by
  rw [agenda, List.take_append_of_le_length (by rwa [List.length_map]), List.map_take]

/-- The last message that a script with `n` rules lets the client say. -/
theorem agenda_take_succ (batches : List (List Point)) (n : Nat) : ∃ m,
    (agenda batches).take (n + 1) = (batches.take n).map askFor ++ [m] ∧
      (batches.length ≤ n → m = .clientDone) ∧
      (n < batches.length → ∃ batch, m = askFor batch) := by
  rcases Nat.lt_or_ge n batches.length with hlt | hle
  · refine ⟨askFor batches[n], ?_, fun h => absurd hlt (by omega), fun _ => ⟨_, rfl⟩⟩
    rw [agenda_take hlt, List.take_succ_eq_append_getElem hlt, List.map_append,
      List.map_singleton]
  · refine ⟨.clientDone, ?_, fun _ => rfl, fun h => absurd h (by omega)⟩
    rw [List.take_of_length_le (by rw [agenda_length]; omega), List.take_of_length_le hle, agenda]

/-! ### The server, by what it has heard -/

variable {chain : BlockFixtureChain} {reply : RangeReply} {points : List Point} {p : Point}

/-- The batches that are answered, and their replies. -/
abbrev StreamsAll (chain : BlockFixtureChain) (batches : List (List Point))
    (replies : List RangeReply) : Prop :=
  List.Forall₂ (fun batch reply => Streams chain (wirePoint (batch.headD .origin))
    (wirePoint (batch.getLastD .origin)) reply) batches replies

theorem exists_answers (n : Nat) (h : ∀ batch ∈ batches, chain.RangeLegible
    (wirePoint (batch.headD .origin)) (wirePoint (batch.getLastD .origin))) :
    ∃ replies, StreamsAll chain (batches.take n) replies :=
  Lib.exists_forall₂ fun batch hmem => exists_streams (h batch (List.mem_of_mem_take hmem))

theorem answers_complete (h : StreamsAll chain batches replies) :
    ∀ reply ∈ replies, reply.completes = true := by
  induction h with
  | nil => exact fun _ h => nomatch h
  | cons hreply _ ih => exact List.forall_mem_cons.mpr ⟨rangeAnswer_completes hreply.answer, ih⟩

/-- The session of a server that has answered the first `k` batches. -/
theorem served_first (h : StreamsAll chain (batches.take n) replies) (hk : k ≤ replies.length) :
    ∃ s', s'.sent = ((replies.take k).flatMap RangeReply.messages).map Wire.message ∧
      s'.locals = countReplies ((replies.take k).map replyCounts).sum k ⟨0, 0, 0, 0⟩ ∧
      ∀ incoming, (serveLoop (streamScript n) (some chain) 0
          (((batches.take k).map askFor ++ incoming).map BlockFetchClientMessage.received)).run
            (fetchStarted (streamScript n) (some chain)) =
        (serveLoop (streamScript n) (some chain) k
          (incoming.map BlockFetchClientMessage.received)).run s' := by
  have hlength := h.length_eq
  rw [List.length_take] at hlength
  have hfirst : StreamsAll chain (batches.take k) (replies.take k) := by
    have htake := List.forall₂_take k h
    rwa [List.take_take, Nat.min_eq_left (by omega)] at htake
  have hbatches : (batches.take k).length = k := by rw [List.length_take]; omega
  have hreplies : (replies.take k).length = k := by rw [List.length_take]; omega
  obtain ⟨s', hsent, hlocals, hrun⟩ := streamScript_turns (i := 0) (n := n) hfirst
    (by rw [hbatches]; omega) (fetchStarted (streamScript n) (some chain))
  refine ⟨s', hsent, ?_, fun incoming => ?_⟩
  · rw [hlocals, hreplies]
    rfl
  · rw [List.map_append, hrun, hbatches, Nat.zero_add]

/-- The session of a server that has heard all that its rules let the client say. -/
structure ServedAll (chain : BlockFixtureChain) (n : Nat) (batches : List (List Point))
    (replies : List RangeReply) (r : Except Fault Unit) (s : BlockFetchSession) : Prop where
  sent : s.sent = (replies.flatMap RangeReply.messages).map Wire.message
  completes : batches.length ≤ n → r = .ok () ∧
    s.locals = countReplies (replies.map replyCounts).sum replies.length ⟨0, 0, 0, 0⟩
  exhausted : n < batches.length → r = .error (Proof.exhausted n)

theorem served_all (h : StreamsAll chain (batches.take n) replies) :
    ∃ r s, (serveLoop (streamScript n) (some chain) 0
        (((agenda batches).take (n + 1)).map BlockFetchClientMessage.received)).run
          (fetchStarted (streamScript n) (some chain)) = (r, s) ∧
      ServedAll chain n batches replies r s := by
  have hlength := h.length_eq
  rw [List.length_take] at hlength
  have hanswered : batches.take replies.length = batches.take n := by
    rw [← hlength]
    exact (List.take_eq_take_min).symm
  obtain ⟨s, hsent, hlocals, hrun⟩ := served_first h (Nat.le_refl _)
  rw [List.take_length] at hsent hlocals
  rw [hanswered] at hrun
  obtain ⟨m, hagenda, hdone, hask⟩ := agenda_take_succ batches n
  rw [hagenda, hrun]
  rcases Nat.lt_or_ge n batches.length with hless | hge
  · obtain ⟨batch, rfl⟩ := hask hless
    obtain rfl : replies.length = n := by omega
    obtain ⟨s', hfails, hsame⟩ := streamScript_exhausted chain replies.length
      (wirePoint (batch.headD .origin)) (wirePoint (batch.getLastD .origin)) s
    exact ⟨_, s', hfails, hsame.trans hsent, fun h => absurd h (by omega), fun _ => rfl⟩
  · obtain rfl := hdone hge
    obtain ⟨s', hreturns, hsame, hlocals'⟩ :=
      streamScript_done chain n replies.length s
    exact ⟨_, s', hreturns, hsame.trans hsent, fun _ => ⟨rfl, hlocals'.trans hlocals⟩,
      fun h => absurd h (by omega)⟩

/-- **What the server has said**: the answers to the requests it has heard and has rules for. -/
theorem fetchServer_tells (h : StreamsAll chain (batches.take n) replies)
    {heard : List BlockFetchClientMessage} (hheard : heard <+: (agenda batches).take (n + 1)) :
    (fetchServerParty (streamScript n) (some chain)).tells heard =
      ((replies.take heard.length).flatMap RangeReply.messages).map Wire.message := by
  have hlength := h.length_eq
  rw [List.length_take] at hlength
  have hle := hheard.length_le
  rw [List.length_take, agenda_length] at hle
  show (blocksServedTo _ _ _).2.sent = _
  rw [(blocksServedTo_loop _ _ _).1]
  rcases Nat.lt_or_ge replies.length heard.length with hlt | hge
  · -- one message more than there are answers
    obtain ⟨r, s, hrun, hserved⟩ := served_all h
    rw [hheard.eq_of_length (by rw [List.length_take, agenda_length]; omega), hrun,
      List.take_of_length_le (by rw [List.length_take, agenda_length]; omega)]
    exact hserved.sent
  · obtain ⟨s', hsent, -, hrun⟩ := served_first h hge
    have hfirst : heard = (batches.take heard.length).map askFor ++ [] := by
      rw [List.append_nil, ← agenda_take (by omega)]
      refine (List.prefix_iff_eq_take.mp hheard).trans ?_
      rw [List.take_take, Nat.min_eq_left (by omega)]
    have hstop := hrun []
    rw [← hfirst] at hstop
    rw [hstop, ← hsent]
    rfl

/-! ### What is captured -/

theorem captures_shift (range : Nat → RangeReply) (i : Nat) (batches : List (List Point)) :
    captures range (i + 1) batches = captures (fun k => range (k + 1)) i batches := by
  induction batches generalizing i with
  | nil => rfl
  | cons batch rest ih => rw [captures, captures, ih]

/-- A request for one point brings its block, or none. -/
theorem rangeAnswer_single (h : RangeAnswer chain p p reply) :
    (reply = .noBlocks ∧ ¬ chain.HasBlock p) ∨ ∃ k e body, reply = .batch [body] none ∧
      chain.FirstBlock p k ∧ chain.entries[k]? = some e ∧ e.HasBody body := by
  cases h with
  | noBlocks h =>
    refine .inl ⟨rfl, ?_⟩
    rcases h with h | h | ⟨i, j, hi, hj, hlt⟩
    · exact h
    · exact h
    · rw [hi.unique hj] at hlt
      exact absurd hlt (Nat.lt_irrefl _)
  | @blocks i j bodies hfrom hto hle hbodies =>
    obtain rfl := hfrom.unique hto
    obtain ⟨e, hget, -⟩ := hfrom.here
    have hone : chain.blocksBetween i i = [e] := by
      obtain ⟨hlt, rfl⟩ := List.getElem?_eq_some_iff.mp hget
      rw [BlockFixtureChain.blocksBetween, List.take_succ_eq_append_getElem hlt,
        List.drop_append_of_le_length (by rw [List.length_take]; omega), List.drop_take,
        Nat.sub_self, List.take_zero, List.nil_append]
    rw [hone] at hbodies
    obtain ⟨body, bodies, hbody, hnil, rfl⟩ := List.forall₂_cons_left_iff.mp hbodies
    rw [List.forall₂_nil_left_iff.mp hnil]
    exact .inr ⟨i, e, body, rfl, hfrom, hget, hbody⟩

/-- **What is captured are the blocks of the points**, in their order. -/
theorem captures_blocksAt {fail : RangeReply}
    (h : List.Forall₂ (AnswersBatch chain) (points.map fun p => [p]) replies) :
    BlocksAt chain points (captures (replyAt replies fail) 0 (points.map fun p => [p])) := by
  induction points generalizing replies with
  | nil => exact .nil
  | cons p points ih =>
    rw [List.map_cons] at h ⊢
    obtain ⟨reply, rest, hreply, hrest, rfl⟩ := List.forall₂_cons_left_iff.mp h
    rw [captures, captures_shift]
    have hcaptured := ih hrest
    rcases rangeAnswer_single hreply with ⟨rfl, hno⟩ | ⟨k, e, body, rfl, hfirst, hget, hbody⟩
    · have hnone : capturedOfBatch [p] (delivered (replyAt (.noBlocks :: rest) fail 0)) = [] :=
        capturedOfBatch_eq_nil.mpr fun _ _ _ => rfl
      rw [hnone, List.nil_append]
      exact .noBlock hno hcaptured
    · cases p with
      | origin =>
        obtain ⟨e, -, he⟩ := hfirst.hasBlock
        exact absurd he (point_ne_origin_block e)
      | specific slot hash => exact .block hfirst hget hbody hcaptured

/-! ### Where the conversation ends -/

/-- Each message that has been answered brings the next one. -/
theorem linked_turn (silence : String) (points : List Point) (batchSize : Nat) (hlib : lib.Reads)
    (h : StreamsAll chain ((batchesOf points batchSize).take n) replies)
    (heard : List BlockFetchClientMessage)
    (hheard : heard <+: (agenda (batchesOf points batchSize)).take (n + 1)) :
    (fetchClientParty lib silence points batchSize).tells
        ((fetchServerParty (streamScript n) (some chain)).tells heard) =
      ((agenda (batchesOf points batchSize)).take (n + 1)).take (heard.length + 1) := by
  have hlength := h.length_eq
  rw [List.length_take] at hlength
  have hle := hheard.length_le
  rw [List.length_take, agenda_length] at hle
  have hcomplete : ∀ reply ∈ replies.take heard.length, reply.completes = true :=
    fun reply hmem => answers_complete h reply (List.mem_of_mem_take hmem)
  rw [fetchServer_tells h hheard, fetchClient_tells, rangeReplies_messages silence hlib hcomplete,
    answeredBefore_complete hcomplete, List.take_take, List.length_take]
  rcases Nat.lt_or_ge (batchesOf points batchSize).length (heard.length) with hlt | hge
  · rw [List.take_of_length_le (by rw [agenda_length]; omega),
      List.take_of_length_le (by rw [agenda_length]; omega)]
  · congr 1
    omega

theorem replyCounts_zipWith (h : batches.length = replies.length) :
    (List.zipWith Exchange.mk batches replies).map (fun exchange => replyCounts exchange.reply) =
      replies.map replyCounts := by
  induction batches generalizing replies with
  | nil =>
    rw [List.length_eq_zero_iff.mp h.symm]
    rfl
  | cons batch batches ih =>
    cases replies with
    | nil => cases h
    | cons reply replies =>
      rw [List.zipWith_cons_cons, List.map_cons, List.map_cons, ih (Nat.succ.inj h)]

/-- The session of a client that has heard a complete reply for each batch. -/
theorem fetchedBy_answered (points : List Point) (batchSize : Nat)
    {heard : List (Wire BlockFetchMessage)}
    (hheard : lib.rangeReplies silence none heard = replies)
    (hcomplete : ∀ reply ∈ replies, reply.completes = true)
    (hlength : (batchesOf points batchSize).length = replies.length) :
    ∃ summary, (fetchedBy lib silence points batchSize heard).1 = .ok summary ∧
      summary.exitReason = "completed" ∧
      counts summary.toBlockFetchProgress = (replies.map replyCounts).sum ∧
      summary.capturedBlocks =
        captures (replyAt replies (.error silence)) 0 (batchesOf points batchSize) := by
  obtain ⟨r, s, hrun, hended⟩ := runBlockFetch_ended points batchSize
    (show (lib.replies silence (.ok ()) heard).done = .ok () from rfl)
  have hrange : (lib.replies silence (.ok ()) heard).range = replyAt replies (.error silence) :=
    funext fun i => congrArg (fun replies => replies.getD i (.error silence)) hheard
  rw [hrange, exchanges_answered hcomplete hlength.le] at hended
  obtain rfl := hended.completes (allComplete_zipWith hcomplete)
  refine ⟨_, congrArg Prod.fst hrun, rfl, ?_, ?_⟩
  · exact hended.counted.trans (congrArg List.sum (replyCounts_zipWith hlength))
  · have hcaptured := runBlockFetch_captured hrun
    rwa [hrange] at hcaptured

/-- The session of a client that hears no reply to one of its requests. -/
theorem fetchedBy_short (points : List Point) (batchSize : Nat)
    {heard : List (Wire BlockFetchMessage)}
    (hheard : lib.rangeReplies silence none heard = replies)
    (hcomplete : ∀ reply ∈ replies, reply.completes = true)
    (hless : replies.length < (batchesOf points batchSize).length) :
    ∃ reason, (fetchedBy lib silence points batchSize heard).1 = .error (.err reason) := by
  obtain ⟨r, s, hrun, hended⟩ := runBlockFetch_ended points batchSize
    (show (lib.replies silence (.ok ()) heard).done = .ok () from rfl)
  have hrange : (lib.replies silence (.ok ()) heard).range = replyAt replies (.error silence) :=
    funext fun i => congrArg (fun replies => replies.getD i (.error silence)) hheard
  rw [hrange] at hended
  obtain ⟨reason, rfl⟩ := hended.fails (allComplete_short hcomplete rfl hless)
  exact ⟨reason, congrArg Prod.fst hrun⟩

end

/-- What a client fetches from a server with `n` rules, in a conversation that comes to `q`. -/
structure Fetches (lib : BlockFetchLibrary) (silence : String) (points : List Point)
    (batchSize n : Nat) (chain : BlockFixtureChain) (replies : List RangeReply)
    (q : State BlockFetchClientMessage (Wire BlockFetchMessage)) : Prop where
  /-- The client has asked for its batches, one after another, and is done with it; or there are
  more batches than rules. -/
  asked : q.toRight = (agenda (batchesOf points batchSize)).take (n + 1)
  /-- Each has been answered with its range. -/
  answered : List.Forall₂ (AnswersBatch chain) ((batchesOf points batchSize).take n) replies
  heard : q.toLeft = (replies.flatMap RangeReply.messages).map Wire.message
  /-- If there are rules enough, both sessions complete, and count the same. -/
  completes : (batchesOf points batchSize).length ≤ n → ∃ summary served,
    (fetchedBy lib silence points batchSize q.toLeft).1 = .ok summary ∧
      (blocksServedTo (streamScript n) (some chain) q.toRight).1 = .ok served ∧
      summary.exitReason = "completed" ∧ served.exitReason = "completed" ∧
      counts summary.toBlockFetchProgress = (replies.map replyCounts).sum ∧
      served.rangeRequests = summary.rangeRequests ∧
      served.blocksServed = summary.blocksReceived ∧
      served.noBlocksResponses = summary.noBlocksResponses ∧
      (batchSize ≤ 1 → BlocksAt chain points summary.capturedBlocks)
  /-- If not, both fail. -/
  fails : n < (batchesOf points batchSize).length →
    (∃ reason, (fetchedBy lib silence points batchSize q.toLeft).1 = .error (.err reason)) ∧
      (blocksServedTo (streamScript n) (some chain) q.toRight).1 = .error (exhausted n)

section

variable {lib : BlockFetchLibrary} {chain : BlockFixtureChain} {silence : String}
  {points : List Point} {batchSize n : Nat} {replies : List RangeReply}

/-- What has been delivered when there is nothing more to deliver. -/
def conversed (points : List Point) (batchSize n : Nat) (replies : List RangeReply) :
    State BlockFetchClientMessage (Wire BlockFetchMessage) where
  toRight := (agenda (batchesOf points batchSize)).take (n + 1)
  toLeft := (replies.flatMap RangeReply.messages).map Wire.message

theorem conversed_comesTo (silence : String) (hlib : lib.Reads)
    (h : StreamsAll chain ((batchesOf points batchSize).take n) replies) :
    ComesTo (fetchClientParty lib silence points batchSize)
      (fetchServerParty (streamScript n) (some chain))
      (conversed points batchSize n replies) := by
  have hcomes := comesTo_of_turns (linked_turn silence points batchSize hlib h)
  have hlength := h.length_eq
  rw [List.length_take] at hlength
  have hall : replies.take ((agenda (batchesOf points batchSize)).take (n + 1)).length = replies :=
    List.take_of_length_le (by rw [List.length_take, agenda_length]; omega)
  rwa [fetchServer_tells h List.prefix_rfl, hall] at hcomes

theorem conversed_fetches (silence : String) (hlib : lib.Reads)
    (h : StreamsAll chain ((batchesOf points batchSize).take n) replies) :
    Fetches lib silence points batchSize n chain replies
      (conversed points batchSize n replies) := by
  have hlength := h.length_eq
  rw [List.length_take] at hlength
  have hcomplete := answers_complete h
  have hheard := rangeReplies_messages silence hlib hcomplete
  obtain ⟨r, s, hserved, hends⟩ := served_all h
  have hresult := (blocksServedTo_loop (streamScript n) (some chain)
    ((agenda (batchesOf points batchSize)).take (n + 1))).2
  rw [hserved] at hresult
  refine ⟨rfl, h.imp fun _ _ hreply => hreply.answer, rfl, fun henough => ?_,
    fun hless => ⟨?_, ?_⟩⟩
  · obtain ⟨rfl, hlocals⟩ := hends.completes henough
    obtain ⟨summary, hok, hreason, hcounts, hcaptured⟩ :=
      fetchedBy_answered points batchSize hheard hcomplete (by omega)
    refine ⟨summary, _, hok, hresult, hreason, rfl, hcounts, ?_, ?_, ?_, fun hsize => ?_⟩
    · show s.locals.rangeRequests = _
      rw [hlocals]
      exact (UInt64.zero_add _).trans (congrArg BlockFetchCounts.rangeRequests hcounts.symm)
    · show s.locals.blocksServed = _
      rw [hlocals]
      exact (UInt64.zero_add _).trans (congrArg BlockFetchCounts.blocksReceived hcounts.symm)
    · show s.locals.noBlocksResponses = _
      rw [hlocals]
      exact (UInt64.zero_add _).trans (congrArg BlockFetchCounts.noBlocksResponses hcounts.symm)
    · have hsingle : batchesOf points batchSize = points.map fun p => [p] := by
        rw [batchesOf, Nat.max_eq_right hsize, Lib.toChunks_one]
      have hanswered : List.Forall₂ (AnswersBatch chain) (points.map fun p => [p]) replies := by
        rw [List.take_of_length_le henough, hsingle] at h
        exact h.imp fun _ _ hreply => hreply.answer
      rw [hcaptured, hsingle]
      exact captures_blocksAt hanswered
  · exact fetchedBy_short points batchSize hheard hcomplete (by omega)
  · rw [hends.exhausted hless] at hresult
    exact hresult

end

/-- **A client that talks to a server that streams ranges fetches its points**, whatever is
delivered first: the blocks of each batch, and nothing where the fixture has no such range. -/
theorem linked_blockFetch {lib : BlockFetchLibrary} {chain : BlockFixtureChain} (silence : String)
    (points : List Point) (batchSize n : Nat) (hlib : lib.Reads)
    (hlegible : ∀ batch ∈ batchesOf points batchSize, chain.RangeLegible
      (wirePoint (batch.headD .origin)) (wirePoint (batch.getLastD .origin))) :
    ∃ q replies, ComesTo (fetchClientParty lib silence points batchSize)
        (fetchServerParty (streamScript n) (some chain)) q ∧
      Fetches lib silence points batchSize n chain replies q := by
  obtain ⟨replies, h⟩ := exists_answers n hlegible
  exact ⟨_, replies, conversed_comesTo silence hlib h, conversed_fetches silence hlib h⟩

/-- The library on the messages of the protocol. -/
def plainFetchLibrary : BlockFetchLibrary where
  answer
    | .message .startBatch => .ok true
    | .message .noBlocks => .ok false
    | _ => .error "unexpected message"
  block
    | .message (.block body) => .ok (some body)
    | .message .batchDone => .ok none
    | _ => .error "unexpected message"

theorem plainFetchLibrary_reads : plainFetchLibrary.Reads := ⟨rfl, rfl, fun _ => rfl, rfl⟩

/-- The blocks of two headers. -/
def plainBlocks : BlockFixtureChain where
  anchor := .origin
  entries := [⟨5, encodeHex (List.replicate 32 5), encodeHex [0x82, 0xa0]⟩,
    ⟨7, encodeHex (List.replicate 32 7), encodeHex [0x82, 0xa1]⟩]

theorem plainBlocks_legible (fromPoint toPoint : Point) :
    plainBlocks.RangeLegible fromPoint toPoint := by
  have hread : ∀ e ∈ plainBlocks.entries,
      ∃ h, BlockFixtureEntry.decodeHexUnchecked e.blockHash = .ok h := by
    intro e he
    rcases List.mem_cons.mp he with rfl | he
    · exact ⟨_, decodePairsLenient_encodeHex _⟩
    · rw [List.mem_singleton.mp he]
      exact ⟨_, decodePairsLenient_encodeHex _⟩
  refine ⟨legible_of_readable hread _, fun _ => legible_of_readable hread _,
    fun i j _ _ _ e he => ?_⟩
  have hmem : e ∈ plainBlocks.entries := List.mem_of_mem_take (List.mem_of_mem_drop he)
  rcases List.mem_cons.mp hmem with rfl | hmem
  · exact ⟨_, decodeHexWith_encodeHex ..⟩
  · rw [List.mem_singleton.mp hmem]
    exact ⟨_, decodeHexWith_encodeHex ..⟩

/-- A client that asks for one of them and for a block that is not there. -/
theorem linked_plainBlocks : ∃ q replies,
    ComesTo (fetchClientParty plainFetchLibrary "closed"
        [.specific 7 (List.replicate 32 7), .specific 9 []] 1)
      (fetchServerParty (streamScript 2) (some plainBlocks)) q ∧
    Fetches plainFetchLibrary "closed" [.specific 7 (List.replicate 32 7), .specific 9 []] 1 2
      plainBlocks replies q :=
  linked_blockFetch "closed" _ 1 2 plainFetchLibrary_reads fun _ _ => plainBlocks_legible _ _

end Proof

end ConformanceHarness
