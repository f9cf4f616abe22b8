import ConformanceHarness.Runner.Serve

/-!
# The generated Block-Fetch script

`generate_for_block_fetch` writes one repeatable rule for range requests, whose
send is `CursorRange`. `execute_single_send` has no arm for that kind: it falls
through to the last one, which stops the session. So the honest script answers no
request at all, whatever the fixture.

What an honest answer would be is `answer`; it needs nothing of the server.
-/

namespace ConformanceHarness.Proof

open ConformanceHarness.Lib (Prog)
open BlockFetch

/-- The honest answer to one range request. -/
def answer (fixture : Option BlockFixtureChain) (range : Point × Point) :
    Except Fault (List BlockFetchMessage) :=
  match fixture with
  | none => .ok [.noBlocks]
  | some chain =>
    match chain.findRange range.1 range.2 with
    | .error f => .error f
    | .ok none => .ok [.noBlocks]
    | .ok (some entries) =>
      (mapEntries BlockFixtureEntry.bodyBytes entries).map fun bodies =>
        .startBatch :: bodies.map .block ++ [.batchDone]

/-- A client that sends these range requests, and then `ClientDone` or nothing. -/
def rangeRequests (ranges : List (Point × Point)) (clientDone : Bool) : List BlockFetchRequest :=
  ranges.map (fun range => .requestRange range.1 range.2) ++
    if clientDone then [.clientDone] else []

/-- The session a generated script makes of these requests. -/
def serveGenerated (fixture : Option BlockFixtureChain) (incoming : List BlockFetchRequest) :
    Except Fault BlockFetchServerSummary × BlockFetchSession :=
  (executeBlockFetchScript (generateForBlockFetch false) fixture incoming).run session

/-- The server returns, and its messages are the honest answers in order. -/
def ServesHonestly (fixture : Option BlockFixtureChain) (ranges : List (Point × Point))
    (clientDone : Bool) : Prop :=
  let (result, s) := serveGenerated fixture (rangeRequests ranges clientDone)
  result.isOk ∧ ∃ answers, mapEntries (answer fixture) ranges = .ok answers ∧
    s.sent = answers.flatten.map Wire.message

/-- Without responses and without `no_blocks_default` the step executes the generated script. -/
theorem script_generated (fixture : Option BlockFixtureChain) (noBlocksDefault : Option Bool)
    (h : noBlocksDefault ≠ some true) :
    ServeBlockFetch.script fixture noBlocksDefault none = .ok (generateForBlockFetch false) := by
  rcases noBlocksDefault with _ | _ | _
  · rfl
  · rfl
  · exact absurd rfl h

/-- The error of the dispatcher's last arm. -/
def cursorRangeError : Fault :=
  .err ["Chain-Sync send rule \"cursor_range\" reached Block-Fetch execution loop"]

/-- The session stops at the first range request. -/
theorem serveGenerated_requestRange (fixture : Option BlockFixtureChain) (range : Point × Point)
    (incoming : List BlockFetchRequest) :
    (serveGenerated fixture (.requestRange range.1 range.2 :: incoming)).1 =
      .error cursorRangeError := by
  rfl

/-- Nothing is asked for, and nothing sent. -/
theorem servesHonestly_nil (fixture : Option BlockFixtureChain) (clientDone : Bool) :
    ServesHonestly fixture [] clientDone := by
  cases clientDone with
  | false => exact ⟨rfl, [], rfl, rfl⟩
  | true => exact ⟨rfl, [], rfl, rfl⟩

/-- **The generated script serves exactly those clients that ask for nothing.** -/
theorem servesHonestly_iff (fixture : Option BlockFixtureChain) (ranges : List (Point × Point))
    (clientDone : Bool) : ServesHonestly fixture ranges clientDone ↔ ranges = [] := by
  constructor
  · intro h
    cases ranges with
    | nil => rfl
    | cons range rest =>
      have herr := serveGenerated_requestRange fixture range
        (rangeRequests rest clientDone)
      have hok : (serveGenerated fixture (rangeRequests (range :: rest) clientDone)).1.isOk := h.1
      rw [rangeRequests, List.map_cons, List.cons_append, ← rangeRequests, herr] at hok
      exact absurd hok (by decide)
  · intro h
    rw [h]
    exact servesHonestly_nil fixture clientDone

/-- One block at slot 62, and a client that asks for it. -/
theorem generated_script_serves_no_block :
    ¬ ServesHonestly
      (some { anchor := .origin, entries := [⟨62, "5a3d", "820a82"⟩] })
      [(.specific 62 [0x5a, 0x3d], .specific 62 [0x5a, 0x3d])] false := by
  intro h
  exact absurd h.1 (by decide)

end ConformanceHarness.Proof
