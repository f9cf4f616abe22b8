import ConformanceHarness.Lib.Path
import ConformanceHarness.Proof.SessionRules

/-!
# State annotations of a Chain-Sync trace

The loop moves its state with `after_send`, which looks at the kind of a rule's send;
the annotation is chosen inside `execute_send`, by what was sent. The two differ for
one kind: an advance of a cursor that yields no header sends `AwaitReply`, annotates
`MustReply`, and leaves the loop in `Idle`. The event of a `raw_bytes` send carries no
annotation at all.

So neighbouring wire events agree with the tracked state between them exactly if the
session performs no `raw_bytes`, and no advance without a header except as its last
step.
-/

namespace ConformanceHarness.Proof

open ConformanceHarness.Lib (Prog Path isChain_and_iff)
open ConformanceHarness.Lib.Prog (Within)
open Session ChainSync

namespace HeaderAnnotations

/-- The end of one wire event is the beginning of the next, and both are the state
tracked in between. -/
def Meets (e e' : Stamped ServerCsState) : Prop :=
  e.event.stateAfter = some e'.before.asStr ∧ e'.event.stateBefore = some e'.before.asStr

instance (e e' : Stamped ServerCsState) : Decidable (Meets e e') :=
  inferInstanceAs (Decidable (_ ∧ _))

/-- **Faithful annotations.** Neighbouring wire events meet. -/
def Faithful (trace : List (Stamped ServerCsState)) : Prop := (wires trace).IsChain Meets

/-- A step whose event has no annotation. -/
def IsRaw : SessionStep ServerCsState ChainSyncLocals → Prop
  | .sent _ _ (.rawBytes _) => True
  | _ => False

/-- An advance of a cursor that yields no header. -/
def YieldsNothing : SessionStep ServerCsState ChainSyncLocals → Prop
  | .sent _ locals .cursorAdvance =>
    ∃ cursor next, locals.cursor = some cursor ∧ cursor.advance = .ok (next, none)
  | _ => False

/-- A wire event, the step it is about, and the states before and after. -/
def Moves (a : ServerCsState)
    (l : Stamped ServerCsState × SessionStep ServerCsState ChainSyncLocals) (b : ServerCsState) :
    Prop :=
  l.1.before = a ∧ (l.1.event.stateBefore = some a.asStr ↔ ¬ IsRaw l.2) ∧
    (l.1.event.stateAfter = some b.asStr ↔ ¬ IsRaw l.2 ∧ ¬ YieldsNothing l.2)

/-- Neighbours meet if nothing about the two steps is in the way. -/
theorem meets_iff {a b c : ServerCsState}
    {l l' : Stamped ServerCsState × SessionStep ServerCsState ChainSyncLocals}
    (h : Moves a l b) (h' : Moves b l' c) :
    Meets l.1 l'.1 ↔ (¬ IsRaw l.2 ∧ ¬ YieldsNothing l.2) ∧ ¬ IsRaw l'.2 := by
  obtain ⟨-, -, hafter⟩ := h
  obtain ⟨hbefore, hbefore', -⟩ := h'
  rw [Meets, hbefore, hafter, hbefore']

/-! ## What a session writes -/

/-- From `s` to `s'` one wire event is written for every step performed, and the events
lead from the state of `s` to `state`. The first step of a session is no `raw_bytes`. -/
def ExtendsTo (state : ServerCsState) (s s' : ChainSyncSession) : Prop :=
  ∃ events labels, s'.trace = s.trace ++ events ∧ wires events = labels.map Prod.fst ∧
    s'.performed = s.performed ++ labels.map Prod.snd ∧ Path Moves s.state labels state ∧
    (s.performed = [] → ∀ l ∈ labels.head?, ¬ IsRaw l.2)

/-- The session goes on from the state the events lead to. -/
def Extends (s s' : ChainSyncSession) : Prop := ExtendsTo s'.state s s'

/-- The session ends, in whatever state. -/
def Ended (s s' : ChainSyncSession) : Prop := ∃ state, ExtendsTo state s s'

/-- Nothing was written, and nothing performed. -/
theorem extendsTo_of_same {s s' : ChainSyncSession} (htrace : s'.trace = s.trace)
    (hperf : s'.performed = s.performed) : ExtendsTo s.state s s' :=
  ⟨[], [], by simp [htrace], rfl, by simp [hperf], .nil _, by simp⟩

theorem ExtendsTo.trans {state : ServerCsState} {a b c : ChainSyncSession}
    (h : ExtendsTo b.state a b) (h' : ExtendsTo state b c) : ExtendsTo state a c := by
  obtain ⟨events, labels, htrace, hwires, hperf, hpath, hhead⟩ := h
  obtain ⟨events', labels', htrace', hwires', hperf', hpath', hhead'⟩ := h'
  refine ⟨events ++ events', labels ++ labels', ?_, ?_, ?_, hpath.append hpath', ?_⟩
  · rw [htrace', htrace, List.append_assoc]
  · rw [wires_append, hwires, hwires', List.map_append]
  · rw [hperf', hperf, List.append_assoc, List.map_append]
  · intro hnil
    cases labels with
    | nil => exact hhead' (by rw [hperf, hnil]; rfl)
    | cons l ls => exact hhead hnil

/-- An internal event is no wire event. -/
theorem extendsTo_internal {state : ServerCsState} {s s' : ChainSyncSession} {event : TraceEvent}
    (hint : event.isWire = false) (h : ExtendsTo state s s') :
    ExtendsTo state s ((emit event : ChainSyncServer Unit).run s').2 := by
  obtain ⟨events, labels, htrace, hwires, hperf, hpath, hhead⟩ := h
  refine ⟨events ++ [⟨event, s'.ioState, s'.state⟩], labels, ?_, ?_, hperf, hpath, hhead⟩
  · show s'.trace ++ _ = _
    rw [htrace, List.append_assoc]
  · rw [wires_append, wires_internal hint, List.append_nil, hwires]

/-- One wire event, for one step. -/
theorem extendsTo_one {s s' : ChainSyncSession} (event : TraceEvent)
    (step : SessionStep ServerCsState ChainSyncLocals) {after state : ServerCsState}
    (hwire : event.isWire = true)
    (htrace : s'.trace = s.trace ++ [⟨event, s.state, after⟩])
    (hperf : s'.performed = s.performed ++ [step])
    (hmoves : Moves s.state (⟨event, s.state, after⟩, step) state)
    (hfirst : s.performed = [] → ¬ IsRaw step) : ExtendsTo state s s' := by
  refine ⟨[⟨event, s.state, after⟩], [(⟨event, s.state, after⟩, step)], htrace, ?_, hperf,
    Path.single hmoves, ?_⟩
  · exact wires_wire hwire
  · intro hnil l hl
    obtain rfl := Option.some.inj hl
    exact hfirst hnil

theorem keeps_extends : Keeps Extends where
  refl _ := extendsTo_of_same rfl rfl
  trans _ _ _ := ExtendsTo.trans
  internal h _ := extendsTo_internal h (extendsTo_of_same rfl rfl)

theorem ends_ended : Ends Extends Ended where
  of_keeps _ b h := ⟨b.state, h⟩
  before _ _ _ h h' := h'.imp fun _ h' => h.trans h'
  internal _ _ _ h h' := h'.imp fun _ h' => extendsTo_internal h h'

theorem receive_extends (request : ReceivedRequest) : Within Extends (receive request) := by
  intro s
  refine extendsTo_one (receiveEvent request s.state (s.state.afterReceive request))
    (.received s.state) ?_ rfl rfl ⟨rfl, ?_, ?_⟩ fun _ => id
  · cases request <;> rfl
  · exact iff_of_true rfl id
  · exact iff_of_true rfl ⟨id, id⟩

/-! ## What a send writes -/

/-- A send that writes nothing ends the session, or leaves its state alone. -/
theorem ended_of_same {s s' : ChainSyncSession} (htrace : s'.trace = s.trace)
    (hperf : s'.performed = s.performed) : Ended s s' :=
  ⟨s.state, extendsTo_of_same htrace hperf⟩

/-- A send whose event names the state the loop moves to. -/
theorem extends_sent {s s' : ChainSyncSession} (kind : EventKind) (locals : ChainSyncLocals)
    {payload : Value} {send : ScriptSend}
    (htrace : s'.trace = s.trace ++
      [⟨sentEvent kind payload s.state (s.state.afterSend send).asStr, s.state, s.state⟩])
    (hperf : s'.performed = s.performed ++ [.sent s.state locals send])
    (hstate : s'.state = s.state) (hraw : ¬ IsRaw (.sent s.state locals send))
    (hadv : ¬ YieldsNothing (.sent s.state locals send)) : Extends s (settled send s') := by
  have hmoves : ExtendsTo (s.state.afterSend send) s (settled send s') :=
    extendsTo_one _ _ rfl htrace hperf
      ⟨rfl, iff_of_true rfl hraw, iff_of_true rfl ⟨hraw, hadv⟩⟩ fun _ => hraw
  rw [← hstate] at hmoves
  exact hmoves

section Sends

variable {request : ReceivedRequest} {fixture : Option FixtureChain} {s : ChainSyncSession}

theorem rollForward_keeps (source : HeaderSource) (tip : Option TipSpec) :
    SendKeeps Extends Ended (.rollForward source tip) request fixture s := by
  rw [SendKeeps, executeSend_rollForward, rollForward]
  rcases wireTip fixture tip with f | wire
  · exact ended_of_same rfl rfl
  rcases headerSourceToContent source with f | hc
  · exact ended_of_same rfl rfl
  · exact extends_sent .chainSyncRollForward s.locals rfl rfl rfl id id

theorem rollBackward_keeps (point : String) (tip : Option TipSpec) :
    SendKeeps Extends Ended (.rollBackward point tip) request fixture s := by
  rw [SendKeeps, executeSend_rollBackward, rollBackward]
  rcases wireTip fixture tip with f | wire
  · exact ended_of_same rfl rfl
  rcases parsePoint point with f | pt
  · exact ended_of_same rfl rfl
  · exact extends_sent .chainSyncRollBackward s.locals rfl rfl rfl id id

theorem intersectFound_keeps (point : String) (tip : Option TipSpec) :
    SendKeeps Extends Ended (.intersectFound point tip) request fixture s := by
  rw [SendKeeps, executeSend_intersectFound, intersectFound]
  rcases wireTip fixture tip with f | wire
  · exact ended_of_same rfl rfl
  rcases parsePoint point with f | pt
  · exact ended_of_same rfl rfl
  · exact extends_sent .chainSyncIntersectFound s.locals rfl rfl rfl id id

theorem intersectNotFound_keeps (tip : Option TipSpec) :
    SendKeeps Extends Ended (.intersectNotFound tip) request fixture s := by
  rw [SendKeeps, executeSend_intersectNotFound, intersectNotFound]
  rcases wireTip fixture tip with f | wire
  · exact ended_of_same rfl rfl
  · exact extends_sent .chainSyncIntersectNotFound s.locals rfl rfl rfl id id

theorem awaitReply_keeps (holdSecs : UInt64) :
    SendKeeps Extends Ended (.awaitReply holdSecs) request fixture s :=
  extends_sent .chainSyncAwaitReply s.locals rfl rfl rfl id id

theorem cursorFindIntersect_keeps :
    SendKeeps Extends Ended .cursorFindIntersect request fixture s := by
  obtain ⟨state, ⟨counters, _ | cursor⟩, sent, trace, ioState, performed, delivered⟩ := s
  · exact ended_of_same rfl rfl
  rw [SendKeeps, executeSend_cursorFindIntersect, cursorFindIntersect, Prog.bind_assoc,
    Prog.run_bind_ok (x := needCursor _) (a := cursor) rfl, Prog.bind_assoc,
    Prog.run_bind_ok (x := countIntersect) (a := ()) rfl]
  rcases cursor.tip with f | tip
  · exact ended_of_same rfl rfl
  rcases cursor.findIntersect request.points with f | _ | pos
  · exact ended_of_same rfl rfl
  · exact extends_sent .chainSyncIntersectNotFound _ rfl rfl rfl id id
  · rw [Prog.bind_assoc, Prog.run_ofExcept_ok_bind, Prog.bind_assoc, Prog.run_ofExcept_ok_bind]
    dsimp only
    rw [Prog.bind_assoc, Prog.run_bind_ok (x := putCursor _) (a := ()) rfl]
    rcases (cursor.setPos pos).currentPoint with f | foundPt
    · exact ended_of_same rfl rfl
    · exact extends_sent .chainSyncIntersectFound _ rfl rfl rfl id id

/-- The arm whose annotation the loop does not follow, if there is no next header. -/
theorem cursorAdvance_keeps :
    SendKeeps Extends Ended .cursorAdvance request fixture s := by
  obtain ⟨state, ⟨counters, _ | cursor⟩, sent, trace, ioState, performed, delivered⟩ := s
  · exact ended_of_same rfl rfl
  rw [SendKeeps, executeSend_cursorAdvance, cursorAdvance, Prog.bind_assoc,
    Prog.run_bind_ok (x := needCursor _) (a := cursor) rfl]
  rcases cursor.tip with f | tip
  · exact ended_of_same rfl rfl
  rcases hadv : cursor.advance with f | ⟨next, _ | entry⟩
  · exact ended_of_same rfl rfl
  · refine extendsTo_one (sentEvent .chainSyncAwaitReply _ state "MustReply")
      (.sent state ⟨counters, some cursor⟩ .cursorAdvance) rfl rfl rfl ⟨rfl, ?_, ?_⟩
      fun _ => id
    · exact iff_of_true rfl id
    · refine iff_of_false ?_ fun h => h.2 ⟨cursor, next, rfl, hadv⟩
      show some "MustReply" ≠ some "Idle"
      decide
  · rw [Prog.bind_assoc, Prog.run_ofExcept_ok_bind, Prog.bind_assoc, Prog.run_ofExcept_ok_bind]
    dsimp only
    rcases entryToHeaderContent entry with f | hc
    · exact ended_of_same rfl rfl
    · refine extends_sent .chainSyncRollForward ⟨counters, some cursor⟩
        rfl rfl rfl id ?_
      rintro ⟨cursor', next', hcursor, hadv'⟩
      obtain rfl := Option.some.inj hcursor
      rw [hadv] at hadv'
      cases hadv'

/-- The arm without an annotation. -/
theorem rawBytes_keeps (bytes : List UInt8) (hne : s.performed ≠ []) :
    SendKeeps Extends Ended (.rawBytes bytes) request fixture s := by
  refine extendsTo_one (TraceEvent.new .error .sent (rawBytesPayload bytes))
    (.sent s.state s.locals (.rawBytes bytes)) rfl rfl rfl ⟨rfl, ?_, ?_⟩
    fun hnil => absurd hnil hne
  · exact iff_of_false (fun h => nomatch h) fun h => h trivial
  · exact iff_of_false (fun h => nomatch h) fun h => h.1 trivial

/-- **What a send writes.** -/
theorem executeSend_keeps (send : ScriptSend) (hne : s.performed ≠ []) :
    SendKeeps Extends Ended send request fixture s := by
  cases send with
  | cursorFindIntersect => exact cursorFindIntersect_keeps
  | cursorAdvance => exact cursorAdvance_keeps
  | rollForward source tip => exact rollForward_keeps source tip
  | rollBackward point tip => exact rollBackward_keeps point tip
  | intersectFound point tip => exact intersectFound_keeps point tip
  | intersectNotFound tip => exact intersectNotFound_keeps tip
  | awaitReply holdSecs => exact awaitReply_keeps holdSecs
  | rawBytes bytes => exact rawBytes_keeps bytes hne
  | wait durationSecs => exact extendsTo_of_same rfl rfl
  -- the state moves, and nothing follows
  | disconnect => exact ended_of_same rfl rfl
  | _ => exact ended_of_same rfl rfl

end Sends

/-! ## The session -/

/-- **Neighbouring wire events of a Chain-Sync session meet in the tracked state exactly
if no `raw_bytes` is performed, and no advance without a header but as the last step.** -/
theorem headerTrace_faithful_iff (rules : List ScriptRule) (fixture : Option FixtureChain)
    (incoming : List ReceivedRequest) :
    let s := ((executeResponseScript rules fixture incoming).run (session fixture)).2
    Faithful s.trace ↔
      (∀ step ∈ s.performed, ¬ IsRaw step) ∧
        ∀ step ∈ s.performed.dropLast, ¬ YieldsNothing step := by
  intro s
  have hends : Ended (session fixture) s :=
    executeResponseScript_ends keeps_extends ends_ended (fun _ _ => extendsTo_of_same rfl rfl)
      receive_extends (fun rule _ request s hne => executeSend_keeps rule.send hne) incoming _
  obtain ⟨state, events, labels, htrace, hwires, hperf, hpath, hhead⟩ := hends
  have htrace : s.trace = events := htrace
  have hperf : s.performed = labels.map Prod.snd := hperf
  have hhead := hhead rfl
  have hmeets : labels.IsChain (fun l l' => Meets l.1 l'.1) ↔
      (∀ l ∈ labels.dropLast, ¬ IsRaw l.2 ∧ ¬ YieldsNothing l.2) ∧
        ∀ l ∈ labels.tail, ¬ IsRaw l.2 := by
    rw [← isChain_and_iff]
    refine Path.isChain_iff ?_ hpath
    intro a l b l' c h h'
    exact meets_iff h h'
  rw [Faithful, htrace, hwires, List.isChain_map, hmeets, hperf, ← List.map_dropLast,
    List.forall_mem_map, List.forall_mem_map]
  constructor
  · intro h
    obtain ⟨hlast, htail⟩ := h
    refine ⟨fun l hl => ?_, fun l hl => (hlast l hl).2⟩
    cases labels with
    | nil => exact absurd hl List.not_mem_nil
    | cons first rest =>
      rcases List.mem_cons.mp hl with rfl | hl
      · exact hhead l rfl
      · exact htail l hl
  · intro h
    obtain ⟨hraw, hadv⟩ := h
    refine ⟨fun l hl => ⟨hraw l ((List.dropLast_sublist labels).mem hl), hadv l hl⟩, fun l hl => ?_⟩
    exact hraw l (List.mem_of_mem_tail hl)

/-- An honest script, and a client that asks for headers without an intersection. -/
theorem advance_without_header_misannotated :
    ¬ Faithful ((executeResponseScript
      (generateFromFixture { anchor := .origin, entries := [⟨1, "aa", 0, "bb", 6⟩] } 0)
      (some { anchor := .origin, entries := [⟨1, "aa", 0, "bb", 6⟩] })
      [.findIntersect [], .requestNext, .requestNext]).run
      (session (some { anchor := .origin, entries := [⟨1, "aa", 0, "bb", 6⟩] }))).2.trace := by
  rw [Faithful]
  decide

end HeaderAnnotations

end ConformanceHarness.Proof
